import EffectScript.Proofs.Records
import EffectScript.Proofs.Rewriting

/-!
# Destinations in code under construction

Code is not only appended. A trailing result of a statement can be taken back,
distances are written over placeholders, and accesses are rewritten. So an
offset that was the end of the code once, as a label or as the destination of a
jump, could be behind the end later, or within an instruction.

It never is. Each operation is told by what it does to the instructions that a
walk through the code finds. From that one invariant follows for the record of
any operations: every destination is the offset of an instruction or the end of
the code, every patched distance leads to its destination, and a result that may
be taken back is the last instruction, with no destination behind it.
-/

namespace EffectScript

namespace Instruction

variable {instruction : Instruction} {reach : Nat}

/-- The distance of a jump or of a registration: its last two operand bytes. -/
def distance (instruction : Instruction) : Nat :=
  if instruction.opcode.operandCount = 3 then instruction.trailingShort else
    instruction.short

/-- The instruction with another distance. -/
def aimed (reach : Nat) (instruction : Instruction) : Instruction :=
  { instruction with
    operands := instruction.operands.take
      (instruction.opcode.operandCount - 2) ++ shortBytes reach }

/-- A distance that has room is read back. -/
theorem distance_aimed
    (small : reach ≤ 65535)
    (complete : instruction.operands.length = instruction.opcode.operandCount)
    (wide : 2 ≤ instruction.opcode.operandCount) :
    (instruction.aimed reach).distance = reach := by
  obtain ⟨offset, opcode, operands⟩ := instruction
  have read : bigEndian (UInt8.ofNat (reach / 256))
      (UInt8.ofNat (reach % 256)) = reach :=
    bigEndian_shortBytes small
  have count : opcode.operandCount = 2 ∨ opcode.operandCount = 3 := by
    cases opcode <;> simp [Opcode.operandCount] at wide ⊢
  rcases count with two | three
  · simpa [distance, aimed, short, operand, shortBytes, two] using read
  · obtain ⟨first, high, low, rfl⟩ :=
      Draft.exists_last_two (complete.symm ▸ wide)
    have single : first.length = 1 := by simpa [three] using complete
    obtain ⟨byte, rfl⟩ := List.length_eq_one_iff.1 single
    simpa [distance, aimed, trailingShort, operand, shortBytes, three]
      using read

end Instruction

/-- An emission among others, placed from the start on. -/
theorem placed_middle
    (before : List Emission) (emission : Emission) (after : List Emission) :
    placed [] 0 (before ++ emission :: after) = placed [] 0 before ++
      ⟨totalSize before, emission.opcode, emission.operands⟩ ::
        placed [] (totalSize before + emission.size) after := by
  rw [placed_append, placed, Emission.placedAt_nil, Nat.zero_add]

namespace Draft

variable {draft later : Draft} {instructions : List Instruction}
    {emissions : List Emission}

/-! ## What operations do to the instructions -/

/-- A walk through the code finds the instructions and gets to the end. -/
def Decodes (draft : Draft) (instructions : List Instruction) : Prop :=
  Instruction.walk draft.code = ⟨instructions, none⟩

theorem decodes_of_bytes
    (complete : ∀ emission ∈ emissions, emission.Complete)
    (bytes : draft.code.toList = assemble [] emissions) :
    draft.Decodes (placed [] 0 emissions) :=
  walk_assemble bytes complete

namespace Decodes

/-- The instructions encode the code. -/
theorem encodes (decodes : draft.Decodes instructions) :
    instructions.flatMap Instruction.encode = draft.code.toList ∧
      Instruction.Successive 0 instructions := by
  obtain ⟨stop, walks⟩ :=
    Instruction.walksTo_walkFrom draft.code 0 (Nat.zero_le _)
  rw [show Instruction.walkFrom draft.code 0 = _ from decodes] at walks
  have ended : stop = draft.code.toList.length := walks.ends.1 rfl
  have encodes := walks.encodes
  rw [ended, List.drop_length, List.append_nil] at encodes
  exact ⟨encodes.symm, walks.successive⟩

theorem exists_emissions (decodes : draft.Decodes instructions) :
    ∃ emissions, (∀ emission ∈ emissions, emission.Complete) ∧
      draft.code.toList = assemble [] emissions ∧
      placed [] 0 emissions = instructions := by
  obtain ⟨encodes, successive⟩ := decodes.encodes
  refine ⟨_, complete_of_successive successive, ?_,
    placed_map_emission successive⟩
  rw [assemble_nil_heap, List.flatMap_map]
  exact encodes.symm

/-- An instruction has all its operands and ends within the code. -/
theorem complete
    (decodes : draft.Decodes instructions)
    {instruction : Instruction}
    (member : instruction ∈ instructions) :
    instruction.operands.length = instruction.opcode.operandCount ∧
      instruction.next ≤ draft.code.size := by
  obtain ⟨emissions, complete, bytes, rfl⟩ := decodes.exists_emissions
  obtain ⟨before, emission, after, rfl, rfl⟩ := exists_of_mem_placed member
  have here : emission.Complete := complete emission (by simp)
  constructor
  · rw [Emission.placedAt, Emission.written_nil]
    exact here
  · rw [next_placedAt here, ← Array.length_toList, bytes, length_assemble,
      totalSize_append, totalSize_cons]
    omega

theorem congr
    (decodes : draft.Decodes instructions)
    (code : later.code = draft.code) :
    later.Decodes instructions := by
  unfold Decodes
  rw [code]
  exact decodes

theorem emit
    (decodes : draft.Decodes instructions)
    {opcode : Opcode} {operands : List UInt8}
    (complete : operands.length = opcode.operandCount)
    (line : UInt32) :
    (draft.emit opcode operands line).Decodes
      (instructions ++ [⟨draft.code.size, opcode, operands⟩]) := by
  obtain ⟨emissions, allComplete, bytes, rfl⟩ := decodes.exists_emissions
  have size : draft.code.size = totalSize emissions := by
    rw [← Array.length_toList, bytes, length_assemble]
  have emitted : (draft.emit opcode operands line).Decodes
      (placed [] 0 (emissions ++ [⟨opcode, operands⟩])) := by
    apply decodes_of_bytes
    · exact List.forall_mem_append.2
        ⟨allComplete, List.forall_mem_singleton.2 (by exact complete)⟩
    · simp [Draft.emit, bytes, Emission.bytes]
  rw [placed_append, Nat.zero_add, ← size] at emitted
  simpa [placed, Emission.placedAt] using emitted

/-- The last instruction is taken back when it has no operands. -/
theorem pop {offset : Nat} {opcode : Opcode}
    (decodes : draft.Decodes (instructions ++ [⟨offset, opcode, []⟩]))
    (later : Draft)
    (code : later.code = draft.code.pop) :
    later.Decodes instructions ∧ later.code.size = offset := by
  obtain ⟨emissions, complete, bytes, same⟩ := decodes.exists_emissions
  rcases List.eq_nil_or_concat emissions with rfl | ⟨front, last, rfl⟩
  · simp [placed] at same
  · rw [List.concat_eq_append] at complete bytes same
    rw [placed_append] at same
    obtain ⟨rfl, lastEq⟩ := List.append_inj' same rfl
    simp only [placed, Nat.zero_add, List.cons.injEq, and_true,
      Emission.placedAt, Instruction.mk.injEq] at lastEq
    obtain ⟨rfl, _, operands⟩ := lastEq
    have popped : later.code.toList = assemble [] front := by
      rw [code, Array.toList_pop, bytes]
      simp [Emission.bytes, operands]
    constructor
    · exact decodes_of_bytes
        (fun emission member => complete emission (by simp [member])) popped
    · rw [← Array.length_toList, popped, length_assemble]

/-- The last byte is the last instruction when that has no operands. -/
theorem last {offset : Nat} {opcode : Opcode}
    (decodes : draft.Decodes (instructions ++ [⟨offset, opcode, []⟩])) :
    offset + 1 = draft.code.size ∧
    draft.code[offset]? = some opcode.toByte := by
  have popped := (decodes.pop { draft with code := draft.code.pop } rfl).2
  have bytes : instructions.flatMap Instruction.encode ++ [opcode.toByte] =
      draft.code.toList := by
    rw [← decodes.encodes.1]
    simp [Instruction.encode]
  have length : (instructions.flatMap Instruction.encode).length + 1 =
      draft.code.size := by
    rw [← Array.length_toList, ← bytes, List.length_append]
    rfl
  rw [Array.size_pop] at popped
  have place : offset = (instructions.flatMap Instruction.encode).length := by
    omega
  constructor
  · rw [place]
    exact length
  · rw [← Array.getElem?_toList, ← bytes, place]
    simp

/-- A promotion keeps all instructions at their offsets, and changes only
accesses. -/
theorem promote (decodes : draft.Decodes instructions) (slot : UInt8) :
    ∃ change : Instruction → Instruction,
      (draft.promote slot).Decodes (instructions.map change) ∧
      (draft.promote slot).code.size = draft.code.size ∧
      ∀ instruction, (change instruction).offset = instruction.offset ∧
        (change instruction).opcode.operandCount =
          instruction.opcode.operandCount ∧
        (instruction.opcode.promoted? = none →
          change instruction = instruction) := by
  cases boxed : draft.isHeap slot with
  | true =>
      rw [promote_of_isHeap boxed]
      refine ⟨id, ?_, rfl, fun instruction => ⟨rfl, rfl, fun _ => rfl⟩⟩
      rw [List.map_id]
      exact decodes
  | false =>
      obtain ⟨emissions, complete, bytes, rfl⟩ := decodes.exists_emissions
      obtain ⟨promoted, _⟩ := promote_spells (.whole complete bytes) boxed
      refine ⟨Instruction.throughBox slot, ?_, size_promote boxed,
        fun instruction => ⟨?_, ?_, ?_⟩⟩
      · rw [← placed_throughBox]
        exact decodes_of_bytes promoted.complete
          (promoted.bytes.trans (List.append_nil _))
      · unfold Instruction.throughBox
        split <;> rfl
      · unfold Instruction.throughBox
        split
        next =>
          change instruction.opcode.throughBox.operandCount = _
          cases instruction.opcode <;> rfl
        next => rfl
      · intro plain
        apply Instruction.throughBox_of_not_accesses
        rintro ⟨load | store, _⟩
        · simp [load, Opcode.promoted?] at plain
        · simp [store, Opcode.promoted?] at plain

/-- A patched instruction leads to the end of the code, and all others stay as
they are. -/
theorem patchTo
    (decodes : draft.Decodes instructions)
    {instruction : Instruction}
    (member : instruction ∈ instructions)
    (wide : 2 ≤ instruction.opcode.operandCount)
    {line : UInt32}
    (patched : draft.patchTo instruction.next line = .ok later) :
    ∃ before after reach, instructions = before ++ instruction :: after ∧
      later.Decodes (before ++ instruction.aimed reach :: after) ∧
      instruction.next + (instruction.aimed reach).distance =
        draft.code.size := by
  obtain ⟨count, within⟩ := decodes.complete member
  obtain ⟨emissions, complete, bytes, rfl⟩ := decodes.exists_emissions
  obtain ⟨before, ⟨opcode, operands⟩, after, rfl, rfl⟩ :=
    exists_of_mem_placed member
  rw [Emission.placedAt_nil, Nat.zero_add] at *
  obtain ⟨first, high, low, rfl⟩ := exists_last_two (count.symm ▸ wide)
  have length : opcode.operandCount = first.length + 2 :=
    count.symm.trans List.length_append
  have origin : totalSize before + opcode.size = totalSize before +
      first.length + 3 := by
    rw [Opcode.size, length]
    rfl
  unfold Draft.patchTo at patched
  simp only at patched
  split at patched
  next small =>
    cases patched
    have spells := spells_patched (.whole complete bytes) origin
      (UInt8.ofNat ((draft.code.size - (totalSize before + opcode.size)) / 256))
      (UInt8.ofNat ((draft.code.size - (totalSize before + opcode.size)) % 256))
    refine ⟨_, _, draft.code.size - (totalSize before + opcode.size),
      placed_middle before _ after, ?_, ?_⟩
    · have aimed :
          (Instruction.mk (totalSize before) opcode
            (first ++ [high, low])).aimed
          (draft.code.size - (totalSize before + opcode.size)) =
            ⟨totalSize before, opcode, first ++
            Instruction.shortBytes
              (draft.code.size - (totalSize before + opcode.size))⟩ := by
        rw [Instruction.aimed, length, Nat.add_sub_cancel, List.take_left]
      have sameSize : Emission.size ⟨opcode, first ++ [high, low]⟩ =
          Emission.size ⟨opcode, first ++
          Instruction.shortBytes
            (draft.code.size - (totalSize before + opcode.size))⟩ := by
        simp [Emission.size, Instruction.shortBytes]
      have walked := walk_assemble (spells.bytes.trans (List.append_nil _))
        spells.complete
      rw [placed_middle] at walked
      rw [aimed, sameSize]
      exact walked
    · have read := Instruction.distance_aimed small count wide
      exact (congrArg (_ + ·) read).trans (Nat.add_sub_cancel' within)
  next => cases patched

end Decodes

/-! ## What is said about instructions -/

/-- An instruction with a number of operand bytes stands at the site. -/
def StandsAt (instructions : List Instruction) (site count : Nat) : Prop :=
  ∃ instruction ∈ instructions, instruction.offset = site ∧
    instruction.opcode.operandCount = count

/-- The distance of the instruction at the site leads to the destination. -/
def LeadsTo (instructions : List Instruction) (site destination : Nat) : Prop :=
  ∃ instruction ∈ instructions, instruction.offset = site ∧
    2 ≤ instruction.opcode.operandCount ∧
    instruction.next + instruction.distance = destination

/-- The place is the offset of an instruction, or the end of the code. -/
def Boundary (instructions : List Instruction) (size place : Nat) : Prop :=
  place = size ∨ ∃ instruction ∈ instructions, instruction.offset = place

/-- Instructions stay where they are. Those with a distance stay as they are,
but for the given sites. -/
def Carries (sites : List Nat) (instructions others : List Instruction) :
    Prop :=
  ∀ instruction ∈ instructions,
    ∃ other ∈ others, other.offset = instruction.offset ∧
    other.opcode.operandCount = instruction.opcode.operandCount ∧
    (2 ≤ instruction.opcode.operandCount → instruction.offset ∉ sites →
      other = instruction)

variable {others : List Instruction} {sites : List Nat}
    {site count destination place size : Nat}

/-- What has operands is not the push of a result. -/
theorem mem_of_mem_concat {before : List Instruction}
    {instruction : Instruction} {offset : Nat}
    (member : instruction ∈ before ++ [⟨offset, .pushNil, []⟩])
    (wide : 1 ≤ instruction.opcode.operandCount) :
    instruction ∈ before := by
  rcases List.mem_append.1 member with early | late
  · exact early
  · rw [List.mem_singleton.1 late] at wide
    exact absurd wide (Nat.not_succ_le_zero 0)

theorem StandsAt.of_concat {offset : Nat}
    (stands : StandsAt (instructions ++ [⟨offset, .pushNil, []⟩]) site count)
    (wide : 1 ≤ count) :
    StandsAt instructions site count := by
  obtain ⟨instruction, member, here, size⟩ := stands
  exact ⟨instruction, mem_of_mem_concat member (size ▸ wide), here, size⟩

theorem LeadsTo.of_concat {offset : Nat}
    (leads : LeadsTo (instructions ++ [⟨offset, .pushNil, []⟩]) site
      destination) :
    LeadsTo instructions site destination := by
  obtain ⟨instruction, member, here, wide, reaches⟩ := leads
  exact ⟨instruction, mem_of_mem_concat member (Nat.le_of_succ_le wide), here,
    wide, reaches⟩

namespace Carries

theorem of_subset (subset : instructions ⊆ others) :
    Carries sites instructions others :=
  fun instruction member =>
    ⟨instruction, subset member, rfl, rfl, fun _ _ => rfl⟩

theorem of_change {change : Instruction → Instruction}
    (offset : ∀ instruction, (change instruction).offset = instruction.offset)
    (count : ∀ instruction, (change instruction).opcode.operandCount =
      instruction.opcode.operandCount)
    (wide : ∀ instruction, 2 ≤ instruction.opcode.operandCount →
      change instruction = instruction) :
    Carries sites instructions (instructions.map change) :=
  fun instruction member =>
    ⟨change instruction, List.mem_map_of_mem member, offset instruction,
    count instruction, fun long _ => wide instruction long⟩

theorem of_aimed {before after : List Instruction}
    {instruction : Instruction} {reach : Nat} :
    Carries [instruction.offset] (before ++ instruction :: after)
      (before ++ instruction.aimed reach :: after) := by
  intro other member
  rcases List.mem_append.1 member with early | late
  · exact ⟨other, List.mem_append_left _ early, rfl, rfl, fun _ _ => rfl⟩
  · rcases List.mem_cons.1 late with here | behind
    · refine ⟨instruction.aimed reach, by simp, ?_, ?_, fun _ apart => ?_⟩
      · rw [here]
        rfl
      · rw [here]
        rfl
      · exact absurd (List.mem_singleton.2 (congrArg Instruction.offset here))
          apart
    · exact ⟨other, by simp [behind], rfl, rfl, fun _ _ => rfl⟩

theorem standsAt
    (carries : Carries sites instructions others)
    (stands : StandsAt instructions site count) :
    StandsAt others site count := by
  obtain ⟨instruction, member, offset, size⟩ := stands
  obtain ⟨other, held, sameOffset, sameSize, _⟩ := carries instruction member
  exact ⟨other, held, sameOffset.trans offset, sameSize.trans size⟩

theorem leadsTo
    (carries : Carries sites instructions others)
    (apart : site ∉ sites)
    (leads : LeadsTo instructions site destination) :
    LeadsTo others site destination := by
  obtain ⟨instruction, member, rfl, wide, reaches⟩ := leads
  obtain ⟨other, held, _, _, same⟩ := carries instruction member
  rw [same wide apart] at held
  exact ⟨instruction, held, rfl, wide, reaches⟩

theorem boundary
    (carries : Carries sites instructions others)
    {later : Nat}
    (ended : Boundary others later size)
    (boundary : Boundary instructions size place) :
    Boundary others later place := by
  rcases boundary with rfl | ⟨instruction, member, rfl⟩
  · exact ended
  · obtain ⟨other, held, sameOffset, _⟩ := carries instruction member
    exact .inr ⟨other, held, sameOffset⟩

end Carries

/-! ## What a record keeps -/

/-- The offsets to which something leads: all labels, and all destinations of
patched distances. -/
def Record.destinations (record : Record) : List Nat :=
  record.labels ++ record.patches.map (·.2)

theorem Record.mem_destinations_cons {record : Record} {site place stop : Nat} :
    place ∈ { record with draft := later, patches :=
        (site, stop) :: record.patches : Record }.destinations ↔
      place = stop ∨ place ∈ record.destinations := by
  simp [destinations, or_left_comm]

/-- What is known about the code of a record whose instructions are given. -/
structure Record.Tracks (record : Record) (instructions : List Instruction) :
    Prop where
  decodes : record.draft.Decodes instructions
  lines : record.draft.debug.lines.size = record.draft.code.size
  jumps : ∀ site ∈ record.jumps, StandsAt instructions site 2
  handlers : ∀ site ∈ record.handlers, StandsAt instructions site 3
  destinations : ∀ place ∈ record.destinations,
    Boundary instructions record.draft.code.size place
  patches : ∀ site destination, record.patches.lookup site = some destination →
    LeadsTo instructions site destination
  removable : ∀ offset, record.draft.removable = some offset →
    (∃ before, instructions = before ++ [⟨offset, .pushNil, []⟩]) ∧
      ∀ place ∈ record.destinations, place ≤ offset

namespace Record.Tracks

variable {record : Record} {others : List Instruction} {line : UInt32}

/-- Instructions are carried over to another draft. -/
theorem carry
    (tracks : record.Tracks instructions)
    (carries : Carries [] instructions others)
    (decodes : later.Decodes others)
    (lines : later.debug.lines.size = later.code.size)
    (ended : Boundary others later.code.size record.draft.code.size)
    (removable : ∀ offset, later.removable = some offset →
      (∃ before, others = before ++ [⟨offset, .pushNil, []⟩]) ∧
        ∀ place ∈ record.destinations, place ≤ offset) :
    ({ record with draft := later } : Record).Tracks others where
  decodes := decodes
  lines := lines
  jumps site member := carries.standsAt (tracks.jumps site member)
  handlers site member := carries.standsAt (tracks.handlers site member)
  destinations place member :=
    carries.boundary ended (tracks.destinations place member)
  patches site destination patched :=
    carries.leadsTo List.not_mem_nil (tracks.patches site destination patched)
  removable := removable

/-- The draft changes in nothing that is spoken of. -/
theorem congr
    (tracks : record.Tracks instructions)
    (code : later.code = record.draft.code)
    (lines : later.debug.lines = record.draft.debug.lines)
    (removable : later.removable = record.draft.removable) :
    ({ record with draft := later } : Record).Tracks instructions := by
  apply tracks.carry
  case carries => exact .of_subset (List.Subset.refl _)
  case decodes => exact tracks.decodes.congr code
  case lines =>
    rw [code, lines]
    exact tracks.lines
  case ended => exact .inl (congrArg Array.size code.symm)
  case removable =>
    rw [removable]
    exact tracks.removable

/-- An instruction is appended. -/
theorem emit
    (tracks : record.Tracks instructions)
    (opcode : Opcode) (operands : List UInt8)
    (complete : operands.length = opcode.operandCount)
    (line : UInt32) :
    ({ record with draft := record.draft.emit opcode operands line } :
      Record).Tracks
      (instructions ++ [⟨record.draft.code.size, opcode, operands⟩]) := by
  apply tracks.carry
  case carries => exact .of_subset (List.subset_append_left _ _)
  case decodes => exact tracks.decodes.emit complete line
  case lines => simp [Draft.emit, tracks.lines]
  case ended => exact .inr ⟨_, List.mem_append_right _ List.mem_cons_self, rfl⟩
  case removable =>
    intro offset known
    cases known

/-- No destination is behind the end. -/
theorem bounded (tracks : record.Tracks instructions) :
    ∀ place ∈ record.destinations, place ≤ record.draft.code.size := by
  intro place member
  rcases tracks.destinations place member with rfl | ⟨instruction, held, rfl⟩
  · exact Nat.le_refl _
  · have within := (tracks.decodes.complete held).2
    rw [Instruction.next] at within
    omega

/-- The pushed result may be taken back, since nothing leads behind it yet. -/
theorem emitStatementNil (tracks : record.Tracks instructions) (line : UInt32) :
    ({ record with draft := record.draft.emitStatementNil line } :
      Record).Tracks
      (instructions ++ [⟨record.draft.code.size, .pushNil, []⟩]) := by
  have emitted := tracks.emit .pushNil [] rfl line
  refine { emitted with removable := ?_ }
  intro offset known
  cases known
  exact ⟨⟨instructions, rfl⟩, tracks.bounded⟩

/-- The end of the code becomes a label, so nothing may be taken back. -/
theorem label (tracks : record.Tracks instructions) :
    ({ record with
      draft := record.draft.label
      labels := record.draft.code.size :: record.labels } : Record).Tracks
        instructions := by
  refine { tracks with destinations := ?_, removable := ?_ }
  · exact List.forall_mem_cons.2 ⟨.inl rfl, tracks.destinations⟩
  · intro offset known
    cases known

/-- A jump is appended whose distance is still to be patched. -/
theorem emitJump
    (tracks : record.Tracks instructions)
    {opcode : Opcode}
    (short : opcode.operandCount = 2)
    (line : UInt32) :
    ({ record with
      draft := record.draft.emitJump opcode line
      jumps := record.draft.code.size :: record.jumps } : Record).Tracks
        (instructions ++ [⟨record.draft.code.size, opcode, [255, 255]⟩]) := by
  have emitted := tracks.emit opcode [255, 255] short.symm line
  refine { emitted with jumps := List.forall_mem_cons.2 ⟨?_, emitted.jumps⟩ }
  exact ⟨_, List.mem_append_right _ List.mem_cons_self, rfl, short⟩

/-- A registration is appended whose distance is still to be patched. -/
theorem emitSetHandler
    (tracks : record.Tracks instructions)
    (effect : UInt8) (line : UInt32) :
    ({ record with
      draft := record.draft.emitSetHandler effect line
      handlers := record.draft.code.size :: record.handlers } : Record).Tracks
        (instructions ++
          [⟨record.draft.code.size, .setHandler, [effect, 255, 255]⟩]) := by
  have emitted := tracks.emit .setHandler [effect, 255, 255] rfl line
  refine { emitted with handlers :=
    List.forall_mem_cons.2 ⟨?_, emitted.handlers⟩ }
  exact ⟨_, List.mem_append_right _ List.mem_cons_self, rfl, rfl⟩

/-- A promotion changes accesses only, which have no distances. -/
theorem promote (tracks : record.Tracks instructions) (slot : UInt8) :
    ∃ others,
      ({ record with draft := record.draft.promote slot } : Record).Tracks
        others := by
  obtain ⟨change, decodes, size, changes⟩ := tracks.decodes.promote slot
  have carries : Carries [] instructions (instructions.map change) := by
    apply Carries.of_change
    case offset => exact fun instruction => (changes instruction).1
    case count => exact fun instruction => (changes instruction).2.1
    case wide => exact fun instruction long =>
      (changes instruction).2.2 (promoted?_of_operandCount long)
  have kept : (record.draft.promote slot).debug.lines =
      record.draft.debug.lines ∧
      (record.draft.promote slot).removable = record.draft.removable := by
    unfold Draft.promote
    split <;> exact ⟨rfl, rfl⟩
  refine ⟨instructions.map change, tracks.carry carries decodes ?_
    (.inl size.symm) ?_⟩
  · rw [kept.1, size]
    exact tracks.lines
  · intro offset known
    obtain ⟨⟨before, rfl⟩, bounded⟩ :=
      tracks.removable offset (kept.2.symm.trans known)
    refine ⟨⟨before.map change, ?_⟩, bounded⟩
    rw [List.map_append, List.map_singleton, (changes _).2.2 rfl]

/-- The push of a result is taken back, and nothing else. -/
theorem takeBack
    (tracks : record.Tracks instructions)
    {offset : Nat}
    (known : record.draft.removable = some offset) :
    ∃ others, ({ record with draft := { record.draft with
      code := record.draft.code.pop
      debug := { record.draft.debug with lines := record.draft.debug.lines.pop }
      removable := none } } : Record).Tracks others := by
  obtain ⟨⟨before, rfl⟩, bounded⟩ := tracks.removable offset known
  obtain ⟨decodes, size⟩ := tracks.decodes.pop { record.draft with
    code := record.draft.code.pop
    debug := { record.draft.debug with lines := record.draft.debug.lines.pop }
    removable := none } rfl
  refine ⟨before, ?_⟩
  constructor
  case decodes => exact decodes
  case lines => simp [tracks.lines]
  case jumps => exact fun site member =>
    (tracks.jumps site member).of_concat (by decide)
  case handlers => exact fun site member =>
    (tracks.handlers site member).of_concat (by decide)
  case destinations =>
    intro place member
    -- The place is not behind the removed instruction. If it is its offset, it
    -- is the end now.
    rcases tracks.destinations place member
      with ended | ⟨instruction, held, rfl⟩
    · have within :=
        (tracks.decodes.complete
          (List.mem_append_right before List.mem_cons_self)).2
      have behind : offset + 1 ≤ place := ended.symm ▸ within
      exact absurd (bounded place member) (Nat.not_le_of_lt behind)
    · rcases List.mem_append.1 held with early | late
      · exact .inr ⟨instruction, early, rfl⟩
      · rw [List.mem_singleton.1 late]
        exact .inl size.symm
  case patches => exact fun site destination led =>
    (tracks.patches site destination led).of_concat
  case removable =>
    intro other kept
    cases kept

/-- Throwing away takes back the push of a result, or pops. -/
theorem discard
    (tracks : record.Tracks instructions)
    (nils : StatementNils) (line : UInt32) :
    ∃ others,
      ({ record with draft := record.draft.discard nils line } : Record).Tracks
        others := by
  have emitted := tracks.emit .pop [] rfl line
  unfold Draft.discard
  split
  next offset known =>
    split
    next => exact tracks.takeBack known
    next => exact ⟨_, emitted⟩
  next => exact ⟨_, emitted⟩

/-- A patched distance leads to the end of the code. -/
theorem patchTo
    (tracks : record.Tracks instructions)
    {site count : Nat} {line : UInt32}
    (stands : StandsAt instructions site count)
    (wide : 2 ≤ count)
    (patched : record.draft.patchTo (site + (count + 1)) line = .ok later) :
    ∃ others, ({ record with
      draft := later
      patches := (site, record.draft.code.size) :: record.patches } :
        Record).Tracks others := by
  obtain ⟨instruction, member, rfl, rfl⟩ := stands
  obtain ⟨before, after, reach, rfl, decodes, reaches⟩ :=
    tracks.decodes.patchTo member wide patched
  have carries : Carries [instruction.offset] (before ++ instruction :: after)
      (before ++ instruction.aimed reach :: after) := .of_aimed
  obtain ⟨size, lines, forgotten⟩ : later.code.size = record.draft.code.size ∧
      later.debug.lines = record.draft.debug.lines ∧
      later.removable = none := by
    simp only [Draft.patchTo] at patched
    split at patched
    · cases patched
      simp
    · cases patched
  refine ⟨before ++ instruction.aimed reach :: after, ?_⟩
  constructor
  case decodes => exact decodes
  case lines =>
    change later.debug.lines.size = later.code.size
    rw [lines, size]
    exact tracks.lines
  case jumps => exact fun site member =>
    carries.standsAt (tracks.jumps site member)
  case handlers => exact fun site member =>
    carries.standsAt (tracks.handlers site member)
  case destinations =>
    intro place led
    rcases mem_destinations_cons.1 led with rfl | old
    · exact .inl size.symm
    · exact carries.boundary (.inl size.symm) (tracks.destinations place old)
  case patches =>
    intro site destination led
    rw [List.lookup_cons] at led
    split at led
    next same =>
      cases led
      rw [eq_of_beq same]
      exact ⟨instruction.aimed reach, by simp, rfl, wide, reaches⟩
    next apart =>
      refine carries.leadsTo ?_ (tracks.patches site destination led)
      simpa using apart
  case removable =>
    intro offset known
    cases forgotten.symm.trans known

/-- Every admitted operation leaves a record whose code is known. -/
theorem perform
    (tracks : record.Tracks instructions)
    {operation : Operation} {after : Record}
    (admitted : record.Admits operation)
    (performed : record.perform line operation = .ok after) :
    ∃ others, after.Tracks others := by
  cases operation with
  | declare name =>
      obtain ⟨⟨slot, later⟩, declared, result⟩ := Outcome.bind_eq_ok.1 performed
      cases result
      obtain ⟨_, rfl⟩ := declare_eq declared
      exact ⟨_, tracks.congr rfl rfl rfl⟩
  | declareCapture name outer =>
      obtain ⟨⟨slot, later⟩, captured, result⟩ := Outcome.bind_eq_ok.1 performed
      cases result
      obtain ⟨_, rfl⟩ := declareCapture_eq captured
      exact ⟨_, tracks.congr rfl rfl rfl⟩
  | addConstant value =>
      obtain ⟨⟨index, later⟩, pooled, result⟩ := Outcome.bind_eq_ok.1 performed
      cases result
      have kept : later.code = record.draft.code ∧
          later.debug.lines = record.draft.debug.lines ∧
          later.removable = record.draft.removable := by
        rcases addConstant_cases pooled with ⟨_, _, rfl⟩ | ⟨_, _, _, rfl⟩ <;>
          exact ⟨rfl, rfl, rfl⟩
      have moved := tracks.congr kept.1 kept.2.1 kept.2.2
      exact ⟨_, { moved with }⟩
  | nameIndex name =>
      obtain ⟨⟨index, later⟩, named, result⟩ := Outcome.bind_eq_ok.1 performed
      cases result
      have kept : later.code = record.draft.code ∧
          later.debug.lines = record.draft.debug.lines ∧
          later.removable = record.draft.removable := by
        rcases nameIndex_cases named with ⟨_, rfl⟩ | ⟨_, _, _, rfl⟩ <;>
          exact ⟨rfl, rfl, rfl⟩
      have moved := tracks.congr kept.1 kept.2.1 kept.2.2
      exact ⟨_, { moved with }⟩
  | promote slot =>
      cases performed
      exact tracks.promote slot
  | emit opcode operands =>
      cases performed
      exact ⟨_, tracks.emit opcode operands admitted line⟩
  | addComment text =>
      cases performed
      exact ⟨_, (tracks.emit .comment [] rfl line).congr rfl rfl rfl⟩
  | emitStatementNil =>
      cases performed
      exact ⟨_, tracks.emitStatementNil line⟩
  | discard nils =>
      cases performed
      exact tracks.discard nils line
  | label =>
      cases performed
      exact ⟨_, tracks.label⟩
  | emitJump opcode =>
      cases performed
      exact ⟨_, tracks.emitJump admitted line⟩
  | emitSetHandler effect =>
      cases performed
      exact ⟨_, tracks.emitSetHandler effect line⟩
  | patchJump site =>
      obtain ⟨later, patched, result⟩ := Outcome.bind_eq_ok.1 performed
      cases result
      exact tracks.patchTo (tracks.jumps site admitted) (by decide) patched
  | patchHandler site =>
      obtain ⟨later, patched, result⟩ := Outcome.bind_eq_ok.1 performed
      cases result
      exact tracks.patchTo (tracks.handlers site admitted) (by decide) patched
  | emitLoop destination =>
      obtain ⟨later, looped, result⟩ := Outcome.bind_eq_ok.1 performed
      cases result
      obtain rfl := emitLoop_eq looped
      exact ⟨_, tracks.emit .loop _ rfl line⟩

end Record.Tracks

/-- Nothing is led to or taken back yet. -/
theorem Unwritten.tracks (unwritten : draft.Unwritten) :
    ({ draft := draft } : Record).Tracks [] := by
  constructor
  case decodes =>
    have bytes : draft.code.toList = assemble [] [] := by simp [unwritten.code]
    exact decodes_of_bytes (by simp) bytes
  case lines => simp [unwritten.lines, unwritten.code]
  case jumps => simp
  case handlers => simp
  case destinations => simp [Record.destinations]
  case patches => simp
  case removable => simp [unwritten.removable]

/-! ## Every run -/

/-- No destination of a record is cut off, and each can be gone to. -/
structure Record.WellAimed (record : Record) : Prop where
  /-- The code is exactly its instructions. -/
  decodes : (Instruction.walk record.draft.code).fault = none ∧
    (Instruction.walk record.draft.code).instructions.flatMap
      Instruction.encode = record.draft.code.toList
  lines : record.draft.debug.lines.size = record.draft.code.size
  bounded : ∀ place ∈ record.destinations, place ≤ record.draft.code.size
  boundary : ∀ place ∈ record.destinations,
    Boundary (Instruction.walk record.draft.code).instructions
      record.draft.code.size place
  /-- What was patched last at a site is what the instruction there says. -/
  leads : ∀ site destination, record.patches.lookup site = some destination →
    LeadsTo (Instruction.walk record.draft.code).instructions site destination
  /-- What may be taken back is the push of a result at the end, and nothing
  leads behind it. -/
  removable : ∀ offset, record.draft.removable = some offset →
    (Instruction.walk record.draft.code).instructions.getLast? =
        some ⟨offset, .pushNil, []⟩ ∧
      record.draft.code[offset]? = some Opcode.pushNil.toByte ∧
      offset + 1 = record.draft.code.size ∧ offset + 1 ∉ record.destinations

theorem Record.Tracks.wellAimed {record : Record}
    (tracks : record.Tracks instructions) :
    record.WellAimed := by
  have walked : Instruction.walk record.draft.code = ⟨instructions, none⟩ :=
    tracks.decodes
  constructor
  case decodes =>
    rw [walked]
    exact ⟨rfl, tracks.decodes.encodes.1⟩
  case lines => exact tracks.lines
  case bounded => exact tracks.bounded
  case boundary =>
    rw [walked]
    exact tracks.destinations
  case leads =>
    rw [walked]
    exact tracks.patches
  case removable =>
    rw [walked]
    intro offset known
    obtain ⟨⟨before, rfl⟩, bounded⟩ := tracks.removable offset known
    obtain ⟨size, byte⟩ := tracks.decodes.last
    refine ⟨List.getLast?_concat, byte, size, fun led => ?_⟩
    exact Nat.not_succ_le_self offset (bounded _ led)

/-- Whatever is done to a new draft, after each of the operations no destination
is cut off. -/
theorem no_destination_is_cut_off {name : String}
    {parameters : List String} {line : UInt32}
    (started : Draft.start name parameters line = .ok draft)
    {operations : List (UInt32 × Operation)}
    (admitted : ({ draft := draft } : Record).AdmitsAll operations)
    (count : Nat) :
    (({ draft := draft } : Record).run (operations.take count)).WellAimed := by
  obtain ⟨instructions, tracks⟩ := Record.run_keeps_of_meets
    (fun record => ∃ instructions, record.Tracks instructions)
    (fun ⟨_, tracks⟩ admitted performed => tracks.perform admitted performed)
    ⟨[], (unwritten_start started).tracks⟩ (admitted.take count)
  exact tracks.wellAimed

/-- A result with a jump behind it is popped. The next one has nothing behind it
and is taken back. -/
theorem no_destination_is_cut_off_of_statements :
    ∃ draft operations,
      Draft.start "f" ["a"] 1 = .ok draft ∧
      ({ draft := draft } : Record).AdmitsAll operations ∧
        (({ draft := draft } : Record).run operations).destinations = [3, 4] ∧
        (({ draft := draft } : Record).run operations).draft.code =
          #[13, 0, 1, 1, 10, 14, 0, 5, 1] ∧
        (({ draft := draft } : Record).run operations).draft.removable =
          some 8 ∧
        (({ draft := draft } : Record).run operations).WellAimed := by
  let operations : List (UInt32 × Operation) :=
    [(1, .emitJump .jumpIfFalse), (1, .label), (2, .emitStatementNil),
      (2, .patchJump 0), (2, .discard .elided), (3, .emitStatementNil),
      (3, .discard .elided), (3, .emitLoop 3), (4, .emitStatementNil)]
  have started : Draft.start "f" ["a"] 1 =
      .ok
        ((({ name := "f", arity := 1 } : Draft).addSlot "f" 0).addSlot "a" 1) :=
          rfl
  have admitted :
      ({ draft := (({ name := "f", arity := 1 } : Draft).addSlot "f" 0).addSlot
          "a" 1 } :
      Record).AdmitsAll operations :=
    ⟨rfl, trivial, trivial, List.mem_cons_self, trivial, trivial, trivial,
      List.mem_cons_self, trivial, trivial⟩
  exact ⟨_, operations, started, admitted, rfl, rfl, rfl,
    no_destination_is_cut_off started admitted 9⟩

end Draft

end EffectScript
