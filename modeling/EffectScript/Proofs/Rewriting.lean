import EffectScript.Proofs.Drafting
import EffectScript.Proofs.Encoding

/-!
# Promotion rewrites code in place

Code that is still being written has bytes of many kinds: operations, operands,
and distances that are to be patched later. Promotion of a slot walks through it
by whole instructions, so it takes no operand for an operation. It writes
another operation over each direct access to the slot and leaves everything else
as it is, and where it is.

Here nothing is known about the code. Any bytes *spell* emissions up to the
place where a walk through them stops; the bytes from there on are left alone.
-/

namespace EffectScript

/-- The access to a slot goes through its box. -/
def Opcode.throughBox : Opcode → Opcode
  | .loadLocal => .loadHeap
  | .storeLocal => .storeHeap
  | opcode => opcode

/-- The instruction after the promotion of a slot. -/
def Instruction.throughBox (slot : UInt8) (instruction : Instruction) :
    Instruction :=
  if instruction.byte = slot then
    { instruction with opcode := instruction.opcode.throughBox }
  else instruction

/-- The instruction accesses the slot directly. -/
def Instruction.Accesses (slot : UInt8) (instruction : Instruction) : Prop :=
  (instruction.opcode = .loadLocal ∨ instruction.opcode = .storeLocal) ∧
  instruction.byte = slot

theorem Instruction.throughBox_of_not_accesses
    {slot : UInt8} {instruction : Instruction}
    (apart : ¬ instruction.Accesses slot) :
    instruction.throughBox slot = instruction := by
  unfold throughBox
  split
  next same =>
    have kept : instruction.opcode.throughBox = instruction.opcode := by
      unfold Opcode.throughBox
      split
      next load => exact absurd ⟨.inl load, same⟩ apart
      next store => exact absurd ⟨.inr store, same⟩ apart
      next => rfl
    rw [kept]
  next => rfl

/-- The emission after the promotion of a slot. -/
def Emission.throughBox (slot : UInt8) (emission : Emission) : Emission :=
  ⟨emission.written [slot], emission.operands⟩

/-! ## Walks -/

namespace Instruction

variable {code other : Array UInt8} {offset : Nat}

/-- Decoding looks at the bytes from its offset on. -/
theorem decode_congr
    (size : other.size = code.size)
    (same : ∀ index, offset ≤ index → other[index]? = code[index]?) :
    decode other offset = decode code offset := by
  have parts (stop : Nat) : other.extract (offset + 1) stop = code.extract
      (offset + 1) stop := by
    apply Array.ext_getElem?
    intro index
    rw [Array.getElem?_extract, Array.getElem?_extract, size, same _ (by omega)]
  simp only [decode, same offset (Nat.le_refl _), size, parts]

/-- What a walk finds depends on the bytes from its offset on. -/
theorem walkFrom_congr
    (size : other.size = code.size)
    (same : ∀ index, offset ≤ index → other[index]? = code[index]?) :
    walkFrom other offset = walkFrom code offset := by
  induction offset using walkFrom.induct code with
  | case1 offset before instruction decoded inner =>
      have rest := inner fun index behind => same index (by omega)
      rw [walkFrom, walkFrom, size, if_pos before, if_pos before,
        decode_congr size same, decoded]
      simp only [rest]
  | case2 offset before fault decoded =>
      rw [walkFrom, walkFrom, size, if_pos before, if_pos before,
        decode_congr size same, decoded]
  | case3 offset after =>
      rw [walkFrom, walkFrom, size, if_neg after, if_neg after]

end Instruction

/-- The bytes spell emissions, as far as a walk through them gets. -/
structure Spells
    (code : Array UInt8)
    (emissions : List Emission)
    (back : List UInt8) : Prop where
  complete : ∀ emission ∈ emissions, emission.Complete
  bytes : code.toList = assemble [] emissions ++ back
  stops : (Instruction.walkFrom code (totalSize emissions)).instructions = []

namespace Emission

variable {slot : UInt8} {emission : Emission}

@[simp]
theorem written_nil (emission : Emission) :
    emission.written [] = emission.opcode := by
  unfold written
  split <;> simp

theorem placedAt_nil (emission : Emission) (offset : Nat) :
    emission.placedAt [] offset =
      ⟨offset, emission.opcode, emission.operands⟩ := by
  rw [placedAt, written_nil]

theorem written_singleton : emission.written [slot] =
    if emission.byte = slot then emission.opcode.throughBox else
      emission.opcode := by
  unfold written
  cases operation : emission.opcode <;>
    simp [Opcode.promoted?, Opcode.throughBox]

theorem complete_throughBox (complete : emission.Complete) (slot : UInt8) :
    (emission.throughBox slot).Complete := by
  unfold Complete throughBox
  rw [operandCount_written]
  exact complete

@[simp]
theorem size_throughBox : (emission.throughBox slot).size = emission.size := rfl

end Emission

theorem totalSize_throughBox (slot : UInt8) (emissions : List Emission) :
    totalSize (emissions.map (Emission.throughBox slot)) =
      totalSize emissions := by
  induction emissions with
  | nil => rfl
  | cons emission others inner =>
      rw [List.map_cons, totalSize_cons, totalSize_cons, inner]; rfl

/-- Assembling with one slot in the heap assembles emissions that go through its
box. -/
theorem assemble_throughBox (slot : UInt8) (emissions : List Emission) :
    assemble [] (emissions.map (Emission.throughBox slot)) =
      assemble [slot] emissions := by
  induction emissions with
  | nil => rfl
  | cons emission others inner =>
      rw [List.map_cons, assemble_cons, assemble_cons, inner]
      simp [Emission.bytes, Emission.throughBox]

/-- The promotion of a slot keeps the places of all instructions. -/
theorem placed_throughBox
    (slot : UInt8) (offset : Nat)
    (emissions : List Emission) :
    placed [] offset (emissions.map (Emission.throughBox slot)) =
      (placed [] offset emissions).map (Instruction.throughBox slot) := by
  induction emissions generalizing offset with
  | nil => rfl
  | cons emission others inner =>
      have here : (emission.throughBox slot).placedAt [] offset =
          (emission.placedAt [] offset).throughBox slot := by
        have byteEq : (emission.placedAt [] offset).byte = emission.byte := rfl
        unfold Instruction.throughBox
        rw [byteEq]
        simp only [Emission.placedAt, Emission.throughBox, Emission.written_nil,
          Emission.written_singleton]
        split <;> rfl
      rw [List.map_cons, placed, placed, List.map_cons, here, ← inner,
        Emission.size_throughBox]

theorem placed_map_emission {offset : Nat}
    {instructions : List Instruction}
    (successive : Instruction.Successive offset instructions) :
    placed [] offset (instructions.map Instruction.emission) =
      instructions := by
  induction instructions generalizing offset with
  | nil => rfl
  | cons instruction others inner =>
      obtain ⟨rfl, _, rest⟩ := successive
      have here : instruction.emission.placedAt [] instruction.offset =
          instruction := by
        rw [Emission.placedAt, Emission.written_nil]
        rfl
      rw [List.map_cons, placed, here]
      exact congrArg _ (inner rest)

theorem complete_of_successive {offset : Nat}
    {instructions : List Instruction}
    (successive : Instruction.Successive offset instructions) :
    ∀ emission ∈ instructions.map Instruction.emission, emission.Complete := by
  induction instructions generalizing offset with
  | nil => simp
  | cons instruction others inner =>
      obtain ⟨_, complete, rest⟩ := successive
      exact List.forall_mem_cons.2 ⟨complete, inner rest⟩

/-- A walk spells the instructions that it finds. -/
theorem exists_spelling (code : Array UInt8) :
    ∃ emissions back, Spells code emissions back := by
  obtain ⟨stop, walks⟩ := Instruction.walksTo_walkFrom code 0 (Nat.zero_le _)
  have complete := complete_of_successive walks.successive
  have bytes : code.toList =
      assemble []
        ((Instruction.walkFrom code 0).instructions.map Instruction.emission) ++
        code.toList.drop stop := by
    rw [assemble_nil_heap, List.flatMap_map]
    exact walks.encodes
  refine ⟨_, _, complete, bytes, ?_⟩
  have walked := congrArg Instruction.Walk.instructions
    (walkFrom_append [] _ bytes complete)
  rw [List.nil_append, totalSize_nil, placed_map_emission walks.successive]
    at walked
  exact List.self_eq_append_right.1 walked

namespace Spells

variable {code : Array UInt8} {emissions : List Emission} {back : List UInt8}

/-- Assembled code is spelled to its end. -/
theorem whole
    (complete : ∀ emission ∈ emissions, emission.Complete)
    (bytes : code.toList = assemble [] emissions) :
    Spells code emissions [] where
  complete := complete
  bytes := bytes.trans (List.append_nil _).symm
  stops := by
    have size : code.size = totalSize emissions := by
      rw [← Array.length_toList, bytes, length_assemble]
    rw [walkFrom_end (Nat.le_of_eq size)]

theorem walk (spells : Spells code emissions back) : Instruction.walk code =
    ⟨placed [] 0 emissions,
      (Instruction.walkFrom code (totalSize emissions)).fault⟩ := by
  have walked := walkFrom_append [] emissions spells.bytes spells.complete
  rw [List.nil_append, spells.stops, List.append_nil] at walked
  exact walked

/-- Other bytes of the same length before the place where a walk stops. -/
theorem of_bytes
    (spells : Spells code emissions back)
    {other : Array UInt8} {changed : List Emission}
    (complete : ∀ emission ∈ changed, emission.Complete)
    (size : totalSize changed = totalSize emissions)
    (bytes : other.toList = assemble [] changed ++ back) :
    Spells other changed back ∧ Instruction.walkFrom other (totalSize changed) =
      Instruction.walkFrom code (totalSize emissions) := by
  have same : Instruction.walkFrom other (totalSize changed) =
      Instruction.walkFrom code (totalSize emissions) := by
    rw [size]
    refine Instruction.walkFrom_congr ?_ fun index behind => ?_
    · rw [← Array.length_toList, ← Array.length_toList, bytes, spells.bytes,
        List.length_append, List.length_append, length_assemble,
        length_assemble, size]
    · rw [← Array.getElem?_toList, ← Array.getElem?_toList, bytes, spells.bytes,
        List.getElem?_append_right (by simpa [size] using behind),
        List.getElem?_append_right (by simpa using behind), length_assemble,
        length_assemble, size]
  exact ⟨⟨complete, bytes, by rw [same]; exact spells.stops⟩, same⟩

end Spells

/-! ## Promotion -/

/-- What the promotion of a slot does to a draft in which no access goes past a
box. -/
structure Draft.Reroutes (slot : UInt8) (draft after : Draft) : Prop where
  size : after.code.size = draft.code.size
  /-- The instructions stand where they stood, with the operands that they had.
  Direct accesses to the slot go through its box. -/
  walk : Instruction.walk after.code =
    ⟨(Instruction.walk draft.code).instructions.map
      (Instruction.throughBox slot),
      (Instruction.walk draft.code).fault⟩
  /-- All other bytes are as they were. -/
  bytes : ∀ offset, (∀ instruction ∈ (Instruction.walk draft.code).instructions,
    instruction.Accesses slot → instruction.offset ≠ offset) →
    after.code[offset]? = draft.code[offset]?
  boxed : ∀ other, after.isHeap other = true ↔ other = slot ∨
    draft.isHeap other = true
  others :
    after = { draft with code := after.code, heapSlots := after.heapSlots }

namespace Draft

variable {draft later : Draft} {slot other : UInt8} {emissions : List Emission}
    {back : List UInt8}

theorem promote_of_isHeap (boxed : draft.isHeap slot = true) :
    draft.promote slot = draft := by
  rw [promote, if_pos boxed]

theorem promote_of_not_isHeap (unboxed : draft.isHeap slot = false) :
    draft.promote slot =
      { draft with
        heapSlots := insertSlot slot draft.heapSlots
        code := (Instruction.walk draft.code).instructions.foldl
          (promoteInstruction slot) draft.code } := by
  rw [promote, if_neg (by simp [unboxed])]

theorem isHeap_promote (draft : Draft) (slot : UInt8) :
    (draft.promote slot).isHeap slot = true := by
  rw [isHeap, List.contains_iff_mem]
  exact mem_heapSlots_promote.2 (.inl rfl)

/-- Promotion writes only at the offsets of direct accesses. -/
theorem foldl_promoteInstruction_getElem?
    (slot : UInt8)
    (instructions : List Instruction)
    (code : Array UInt8) (offset : Nat)
    (apart : ∀ instruction ∈ instructions, instruction.Accesses slot →
      instruction.offset ≠ offset) :
    (instructions.foldl (promoteInstruction slot) code)[offset]? =
      code[offset]? := by
  induction instructions generalizing code with
  | nil => rfl
  | cons instruction others inner =>
      obtain ⟨here, rest⟩ := List.forall_mem_cons.1 apart
      rw [List.foldl_cons, inner _ rest]
      unfold promoteInstruction
      split
      next boxed promotes =>
        split
        next same =>
          have direct : instruction.opcode = .loadLocal ∨
              instruction.opcode = .storeLocal := by
            cases operation : instruction.opcode <;> rw [operation]
              at promotes <;> cases promotes <;> simp
          exact Array.getElem?_setIfInBounds_ne (here ⟨direct, same⟩)
        next => rfl
      next => rfl

/-- Promotion of a slot that is in no box yet. -/
theorem promote_spells
    (spells : Spells draft.code emissions back)
    (unboxed : draft.isHeap slot = false) :
    Spells (draft.promote slot).code
        (emissions.map (Emission.throughBox slot)) back ∧
      Instruction.walkFrom (draft.promote slot).code
          (totalSize (emissions.map (Emission.throughBox slot))) =
        Instruction.walkFrom draft.code (totalSize emissions) := by
  refine spells.of_bytes ?_ (totalSize_throughBox slot emissions) ?_
  · intro emission member
    obtain ⟨old, held, rfl⟩ := List.mem_map.1 member
    exact Emission.complete_throughBox (spells.complete old held) slot
  · have promoted :=
      promoteAll_assemble (List.not_mem_nil : slot ∉ []) [] emissions back
      (by simpa using spells.bytes : draft.code.toList = _)
    rw [promote_of_not_isHeap unboxed, spells.walk, assemble_throughBox]
    exact promoted

/-- Promotion changes nothing but the code and the boxed slots. -/
theorem promote_eq (unboxed : draft.isHeap slot = false) : draft.promote slot =
    { draft with code := (draft.promote slot).code, heapSlots :=
        insertSlot slot draft.heapSlots } := by
  rw [promote_of_not_isHeap unboxed]

theorem size_promote (unboxed : draft.isHeap slot = false) :
    (draft.promote slot).code.size = draft.code.size := by
  obtain ⟨emissions, back, spells⟩ := exists_spelling draft.code
  rw [← Array.length_toList, ← Array.length_toList,
    (promote_spells spells unboxed).1.bytes, spells.bytes, List.length_append,
    List.length_append, length_assemble, length_assemble, totalSize_throughBox]

/-- Promotion of a slot rewrites all direct accesses to it, if there are none
when it is in a box already. -/
theorem reroutes_promote
    (direct : draft.isHeap slot = true →
      ∀ instruction ∈ (Instruction.walk draft.code).instructions,
        ¬ instruction.Accesses slot) :
    draft.Reroutes slot (draft.promote slot) := by
  have boxed (other : UInt8) :
      (draft.promote slot).isHeap other = true ↔ other = slot ∨
      draft.isHeap other = true := by
    rw [isHeap, isHeap, List.contains_iff_mem, List.contains_iff_mem]
    exact mem_heapSlots_promote
  cases already : draft.isHeap slot with
  | true =>
      have same : draft.promote slot = draft := promote_of_isHeap already
      rw [same] at boxed ⊢
      have kept : (Instruction.walk draft.code).instructions.map
          (Instruction.throughBox slot) =
          (Instruction.walk draft.code).instructions := by
        refine (List.map_congr_left fun instruction member => ?_).trans
          (List.map_id _)
        exact Instruction.throughBox_of_not_accesses
          (direct already instruction member)
      exact ⟨rfl, by rw [kept], fun _ _ => rfl, boxed, rfl⟩
  | false =>
      obtain ⟨emissions, back, spells⟩ := exists_spelling draft.code
      obtain ⟨promoted, same⟩ := promote_spells spells already
      refine ⟨size_promote already, ?_, ?_, boxed, ?_⟩
      · rw [promoted.walk, same, spells.walk, placed_throughBox]
      · intro offset apart
        rw [promote_of_not_isHeap already]
        exact foldl_promoteInstruction_getElem? slot _ _ _ apart
      · rw [promote_of_not_isHeap already]

/-- Promotion is done once and for all. -/
theorem promote_promote (draft : Draft) (slot : UInt8) :
    (draft.promote slot).promote slot = draft.promote slot :=
  promote_of_isHeap (draft.isHeap_promote slot)

/-- Slots are added in any order. -/
theorem insertSlot_comm (first second : UInt8) (slots : List UInt8) :
    insertSlot first (insertSlot second slots) =
      insertSlot second (insertSlot first slots) := by
  induction slots with
  | nil => grind [insertSlot]
  | cons slot rest inner => grind [insertSlot]

end Draft

theorem Emission.throughBox_eq (slot : UInt8) (emission : Emission) :
    emission.throughBox slot =
      if emission.byte = slot then
        ⟨emission.opcode.throughBox, emission.operands⟩ else emission := by
  rw [throughBox, written_singleton]
  split <;> rfl

/-- Two slots are promoted in any order. -/
theorem Emission.throughBox_comm (first second : UInt8) (emission : Emission) :
    (emission.throughBox first).throughBox second =
      (emission.throughBox second).throughBox first := by
  have byteEq (slot : UInt8) :
      (emission.throughBox slot).byte = emission.byte := rfl
  by_cases same : first = second
  · rw [same]
  · rw [throughBox_eq second (emission.throughBox first),
      throughBox_eq first (emission.throughBox second), byteEq, byteEq,
      throughBox_eq, throughBox_eq]
    by_cases here : emission.byte = first
    · have apart : ¬ emission.byte = second :=
        fun there => same (here.symm.trans there)
      rw [if_neg apart, if_pos here, if_neg apart, if_pos here]
    · rw [if_neg here, if_neg here]

/-- An operation that accesses no slot is not rewritten. -/
theorem Emission.throughBox_of_plain {emission : Emission}
    (plain : emission.opcode.promoted? = none)
    (slot : UInt8) :
    emission.throughBox slot = emission := by
  rw [throughBox, written_of_promoted?_eq_none plain]

namespace Draft

variable {draft later : Draft} {slot other : UInt8} {emissions : List Emission}
    {back : List UInt8}

theorem isHeap_promote_of_ne (different : other ≠ slot) :
    (draft.promote slot).isHeap other = draft.isHeap other := by
  rw [Bool.eq_iff_iff, isHeap, isHeap, List.contains_iff_mem,
    List.contains_iff_mem, mem_heapSlots_promote]
  exact or_iff_right different

/-- Two slots are promoted in any order. -/
theorem promote_comm (draft : Draft) (first second : UInt8) :
    (draft.promote first).promote second =
      (draft.promote second).promote first := by
  by_cases same : first = second
  · rw [same]
  have secondKept : (draft.promote first).isHeap second = draft.isHeap second :=
    isHeap_promote_of_ne (Ne.symm same)
  have firstKept : (draft.promote second).isHeap first = draft.isHeap first :=
    isHeap_promote_of_ne same
  cases firstBoxed : draft.isHeap first with
  | true =>
      rw [promote_of_isHeap firstBoxed,
        promote_of_isHeap (firstKept.trans firstBoxed)]
  | false =>
      cases secondBoxed : draft.isHeap second with
      | true =>
          rw [promote_of_isHeap secondBoxed,
            promote_of_isHeap (secondKept.trans secondBoxed)]
      | false =>
          obtain ⟨emissions, back, spells⟩ := exists_spelling draft.code
          have firstSpells := (promote_spells spells firstBoxed).1
          have secondSpells := (promote_spells spells secondBoxed).1
          have both :=
            (promote_spells firstSpells (secondKept.trans secondBoxed)).1
          have bothToo :=
            (promote_spells secondSpells (firstKept.trans firstBoxed)).1
          have code : ((draft.promote first).promote second).code =
              ((draft.promote second).promote first).code := by
            apply Array.toList_inj.1
            rw [both.bytes, bothToo.bytes, List.map_map, List.map_map]
            congr 3
            exact funext fun emission => emission.throughBox_comm first second
          rw [promote_eq (secondKept.trans secondBoxed),
            promote_eq (firstKept.trans firstBoxed), code]
          generalize ((draft.promote second).promote first).code = written
          rw [promote_eq firstBoxed, promote_eq secondBoxed]
          exact congrArg
            (fun slots => { draft with code := written, heapSlots := slots })
            (insertSlot_comm second first draft.heapSlots)

/-! ## Patching -/

theorem patchTo_of_isHeap
    (boxed : draft.isHeap slot = true)
    (origin : Nat) (line : UInt32) :
    (draft.patchTo origin line).map (·.promote slot) =
      draft.patchTo origin line := by
  unfold patchTo
  simp only
  split
  · exact congrArg Except.ok (promote_of_isHeap boxed)
  · rfl

/-- The bytes of a distance are written over the last two operand bytes of an
instruction. -/
theorem spells_patched {code : Array UInt8}
    {before after : List Emission} {opcode : Opcode} {first : List UInt8}
    {high low : UInt8} {origin : Nat}
    (spells : Spells code
      (before ++ ⟨opcode, first ++ [high, low]⟩ :: after) back)
    (originEq : origin = totalSize before + first.length + 3)
    (second third : UInt8) :
    Spells
      ((code.setIfInBounds (origin - 2) second).setIfInBounds
        (origin - 1) third)
      (before ++ ⟨opcode, first ++ [second, third]⟩ :: after) back := by
  refine (spells.of_bytes ?_ ?_ ?_).1
  · intro emission member
    simp only [List.mem_append, List.mem_cons] at member
    rcases member with old | rfl | old
    · exact spells.complete emission (by simp [old])
    · simpa [Emission.Complete]
        using spells.complete ⟨opcode, first ++ [high, low]⟩ (by simp)
    · exact spells.complete emission (by simp [old])
  · simp [Emission.size]
  · have length :
        origin = (assemble [] before ++ opcode.toByte :: first).length + 2 := by
      simp only [List.length_append, length_assemble,
        List.length_cons, originEq]
      omega
    have bytes : code.toList = (assemble [] before ++ opcode.toByte :: first) ++
        high :: low :: (assemble [] after ++ back) := by
      simp [spells.bytes, Emission.bytes]
    rw [toList_patched bytes length]
    simp [Emission.bytes]

theorem exists_last_two {α : Type} {items : List α}
    (enough : 2 ≤ items.length) :
    ∃ front first second, items = front ++ [first, second] := by
  rcases List.eq_nil_or_concat items with rfl | ⟨front, second, rfl⟩
  · cases enough
  · rcases List.eq_nil_or_concat front with rfl | ⟨front, first, rfl⟩
    · simp at enough
    · exact ⟨front, first, second, by simp⟩

/-- Accesses to slots have one operand byte. -/
theorem promoted?_of_operandCount {opcode : Opcode}
    (wide : 2 ≤ opcode.operandCount) :
    opcode.promoted? = none := by
  cases opcode <;> first | rfl | exact absurd wide (by decide)

/-- A distance can be patched before or after a promotion. -/
theorem promote_patched {before after : List Emission}
    {opcode : Opcode} {first : List UInt8} {high low : UInt8} {origin : Nat}
    (spells : Spells draft.code
      (before ++ ⟨opcode, first ++ [high, low]⟩ :: after) back)
    (plain : opcode.promoted? = none)
    (originEq : origin = totalSize before + first.length + 3)
    (unboxed : draft.isHeap slot = false)
    (line : UInt32) :
    (draft.patchTo origin line).map (·.promote slot) =
      (draft.promote slot).patchTo origin line := by
  have promoted := (promote_spells spells unboxed).1
  rw [List.map_append, List.map_cons, Emission.throughBox_of_plain plain]
    at promoted
  have promotedOrigin : origin =
      totalSize (before.map (Emission.throughBox slot)) + first.length + 3 := by
    rw [totalSize_throughBox, originEq]
  unfold patchTo
  simp only [size_promote unboxed]
  generalize UInt8.ofNat ((draft.code.size - origin) / 256) = second
  generalize UInt8.ofNat ((draft.code.size - origin) % 256) = third
  split
  · let patched := { draft with
      code := (draft.code.setIfInBounds (origin - 2) second).setIfInBounds
        (origin - 1) third
      removable := none }
    have patchedSpells : Spells patched.code _ back :=
      spells_patched spells originEq second third
    have patchedFirst :=
      (@promote_spells patched slot _ _ patchedSpells unboxed).1
    have promotedFirst := spells_patched promoted promotedOrigin second third
    have code : (patched.promote slot).code =
        ((draft.promote slot).code.setIfInBounds
          (origin - 2) second).setIfInBounds (origin - 1) third := by
      apply Array.toList_inj.1
      rw [patchedFirst.bytes, promotedFirst.bytes, List.map_append,
        List.map_cons, Emission.throughBox_of_plain plain]
    refine congrArg Except.ok ((@promote_eq patched slot unboxed).trans ?_)
    rw [← code, promote_eq unboxed]
  · rfl

/-- The distance of any instruction that has one can be patched before or after
a promotion. -/
theorem promote_patchTo {instruction : Instruction}
    (member : instruction ∈ (Instruction.walk draft.code).instructions)
    (wide : 2 ≤ instruction.opcode.operandCount)
    (slot : UInt8) (line : UInt32) :
    (draft.patchTo instruction.next line).map (·.promote slot) =
      (draft.promote slot).patchTo instruction.next line := by
  cases boxed : draft.isHeap slot with
  | true => rw [patchTo_of_isHeap boxed, promote_of_isHeap boxed]
  | false =>
      obtain ⟨emissions, back, spells⟩ := exists_spelling draft.code
      rw [spells.walk] at member
      obtain ⟨before, ⟨opcode, operands⟩, after, rfl, rfl⟩ :=
        exists_of_mem_placed member
      have complete : (⟨opcode, operands⟩ : Emission).Complete :=
        spells.complete _ (by simp)
      rw [Emission.placedAt, Emission.written_nil] at wide
      obtain ⟨first, high, low, rfl⟩ := exists_last_two (complete.symm ▸ wide)
      refine promote_patched spells (promoted?_of_operandCount wide)
        ?_ boxed line
      rw [next_placedAt complete]
      simp only [Emission.size, List.length_append, List.length_cons,
        List.length_nil]
      omega

end Draft

end EffectScript
