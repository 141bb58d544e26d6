import EffectScript.Proofs.Identity
import EffectScript.Proofs.Outcome
import EffectScript.Proofs.Template

/-!
# Drafts hold assembled code

While a function is being written, its draft *holds* a list of emissions: its
code is their assembly with the slots that are boxes so far. Every operation on
drafts is described by what it does to the emissions. Appending appends,
patching fills in a distance, and promoting a slot or adding a captured one
changes nothing at all.
-/

namespace EffectScript.Draft

/-- What the operands of the draft's code refer to. -/
def pools (draft : Draft) : Pools :=
  ⟨draft.constants, draft.names, draft.slots.length⟩

/-- The code of the draft is the assembly of the given emissions. -/
structure Holds (draft : Draft) (emissions : List Emission) : Prop where
  bytes : draft.code.toList = assemble draft.heapSlots emissions
  complete : ∀ emission ∈ emissions, emission.Complete
  inRange : ∀ emission ∈ emissions, emission.opcode.promoted?.isSome →
    emission.byte.toNat < draft.slots.length

/-- The slots, pools and captures of the draft are in order. -/
structure Sound (draft : Draft) : Prop where
  slotsRoom : draft.slots.length ≤ 256
  slotBelow : ∀ entry ∈ draft.slots, entry.2.toNat < draft.slots.length
  constantsRoom : draft.constants.length ≤ 256
  namesRoom : draft.names.length ≤ 256
  namesIndexed : ∀ name index, draft.nameIndices.find? name = some index →
    draft.names[index.toNat]? = some name
  arity : draft.arity < draft.slots.length
  heap : ∀ slot ∈ draft.heapSlots, slot.toNat < draft.slots.length
  captured : ∀ capture ∈ draft.captures, capture.2 ∈ draft.heapSlots
  functions : ∀ identity inner, .function identity inner ∈ draft.constants →
    inner.Sound ∧ ∀ slot ∈ inner.capturesOuter, slot ∈ draft.heapSlots

/-- A later state of the same draft: nothing that operands refer to is lost. -/
structure Grows (draft later : Draft) : Prop where
  arity : later.arity = draft.arity
  pools : draft.pools.Extends later.pools
  heap : ∀ slot ∈ draft.heapSlots, slot ∈ later.heapSlots

/-- Drafts that differ at most in their code and its debug tables. -/
structure Alike (draft later : Draft) : Prop where
  name : later.name = draft.name
  arity : later.arity = draft.arity
  slots : later.slots = draft.slots
  constants : later.constants = draft.constants
  names : later.names = draft.names
  nameIndices : later.nameIndices = draft.nameIndices
  heapSlots : later.heapSlots = draft.heapSlots
  captures : later.captures = draft.captures

theorem Grows.refl (draft : Draft) : draft.Grows draft :=
  ⟨rfl, .refl _, fun _ held => held⟩

theorem Grows.trans {first second third : Draft}
    (early : first.Grows second)
    (late : second.Grows third) :
    first.Grows third :=
  ⟨late.arity.trans early.arity, early.pools.trans late.pools,
    fun slot held => late.heap slot (early.heap slot held)⟩

variable {draft later : Draft} {emissions : List Emission}

theorem Alike.slotNames (alike : draft.Alike later) :
    later.debug.slotNames = draft.debug.slotNames :=
  List.reverse_inj.1 alike.slots

theorem Alike.grows (alike : draft.Alike later) : draft.Grows later where
  arity := alike.arity
  pools := by
    simp only [Draft.pools, alike.constants, alike.names, alike.slots]
    exact .refl _
  heap := by simp [alike.heapSlots]

theorem Alike.trans {first second third : Draft}
    (early : first.Alike second)
    (late : second.Alike third) : first.Alike third where
  name := late.name.trans early.name
  arity := late.arity.trans early.arity
  slots := late.slots.trans early.slots
  constants := late.constants.trans early.constants
  names := late.names.trans early.names
  nameIndices := late.nameIndices.trans early.nameIndices
  heapSlots := late.heapSlots.trans early.heapSlots
  captures := late.captures.trans early.captures

theorem Alike.sound (alike : draft.Alike later) (sound : draft.Sound) :
    later.Sound := by
  constructor
  · simpa [alike.slots] using sound.slotsRoom
  · simpa [alike.slots] using sound.slotBelow
  · simpa [alike.constants] using sound.constantsRoom
  · simpa [alike.names] using sound.namesRoom
  · simpa [alike.names, alike.nameIndices] using sound.namesIndexed
  · simpa [alike.slots, alike.arity] using sound.arity
  · simpa [alike.slots, alike.heapSlots] using sound.heap
  · simpa [alike.captures, alike.heapSlots] using sound.captured
  · simpa [alike.constants, alike.heapSlots] using sound.functions

theorem Holds.size (holds : draft.Holds emissions) :
    draft.code.size = totalSize emissions := by
  rw [← Array.length_toList, holds.bytes, length_assemble]

/-! ## Appending -/

theorem alike_emit
    (draft : Draft) (opcode : Opcode) (operands : List UInt8) (line : UInt32) :
    draft.Alike (draft.emit opcode operands line) :=
  ⟨rfl, rfl, rfl, rfl, rfl, rfl, rfl, rfl⟩

/-- Emitting appends an emission. -/
theorem Holds.emit
    (holds : draft.Holds emissions)
    (emission : Emission)
    (complete : emission.Complete)
    (inRange : emission.opcode.promoted?.isSome →
      emission.byte.toNat < draft.slots.length)
    (line : UInt32) :
    (draft.emit (emission.written draft.heapSlots) emission.operands line).Holds
      (emissions ++ [emission]) := by
  constructor
  · simp [Draft.emit, holds.bytes, Emission.bytes]
  · intro other member
    rcases List.mem_append.1 member with old | new
    · exact holds.complete other old
    · cases List.mem_singleton.1 new
      exact complete
  · intro other member
    rcases List.mem_append.1 member with old | new
    · exact holds.inRange other old
    · cases List.mem_singleton.1 new
      exact inRange

/-- Emitting an operation that accesses no slot appends it as it is. -/
theorem Holds.emit_plain
    (holds : draft.Holds emissions)
    {opcode : Opcode} {operands : List UInt8}
    (complete : operands.length = opcode.operandCount)
    (noAccess : opcode.promoted? = none)
    (line : UInt32) :
    (draft.emit opcode operands line).Holds
      (emissions ++ [⟨opcode, operands⟩]) := by
  have emitted := holds.emit ⟨opcode, operands⟩ complete
    (by simp [noAccess]) line
  rwa [Emission.written_of_promoted?_eq_none (by exact noAccess)] at emitted

/-- Dropping the last emission when it takes a single byte. -/
theorem Holds.pop {last : Emission}
    (holds : draft.Holds (emissions ++ [last]))
    (single : last.operands = [])
    {later : Draft}
    (code : later.code = draft.code.pop)
    (heapSlots : later.heapSlots = draft.heapSlots)
    (slots : later.slots = draft.slots) :
    later.Holds emissions := by
  constructor
  · rw [code, heapSlots, Array.toList_pop, holds.bytes]
    simp [Emission.bytes, single]
  · exact fun emission member =>
      holds.complete emission (List.mem_append_left _ member)
  · rw [slots]
    exact fun emission member =>
      holds.inRange emission (List.mem_append_left _ member)

/-! ## Patching -/

theorem alike_patchTo {origin : Nat} {line : UInt32}
    (patched : draft.patchTo origin line = .ok later) :
    draft.Alike later := by
  simp only [patchTo] at patched
  split at patched
  · cases patched
    exact ⟨rfl, rfl, rfl, rfl, rfl, rfl, rfl, rfl⟩
  · cases patched

/-- The two bytes before an offset are written over. -/
theorem toList_patched {code : Array UInt8}
    {front back : List UInt8} {high low : UInt8} {origin : Nat}
    (bytes : code.toList = front ++ high :: low :: back)
    (originEq : origin = front.length + 2)
    (first second : UInt8) :
    ((code.setIfInBounds (origin - 2) first).setIfInBounds
        (origin - 1) second).toList =
      front ++ first :: second :: back := by
  have here : origin - 2 = front.length := by omega
  have next : origin - 1 = front.length + 1 := by omega
  rw [Array.toList_setIfInBounds, Array.toList_setIfInBounds, bytes, here, next]
  simp

/-- Patching writes the distance to the end of the code into the last two
operand bytes. -/
theorem Holds.patchTo {before after : List Emission}
    {opcode : Opcode} {first : List UInt8} {high low : UInt8} {origin : Nat}
    {line : UInt32}
    (holds : draft.Holds (before ++ ⟨opcode, first ++ [high, low]⟩ :: after))
    (noAccess : opcode.promoted? = none)
    (originEq : origin = totalSize before + first.length + 3)
    (patched : draft.patchTo origin line = .ok later) :
    later.Holds
        (before ++ ⟨opcode, first ++ Instruction.shortBytes
          (totalSize after)⟩ :: after) ∧
      totalSize after ≤ 65535 ∧ later.removable = none := by
  have sized : draft.code.size - origin = totalSize after := by
    rw [holds.size, originEq]
    simp only [totalSize_append, totalSize_cons, Emission.size,
      List.length_append, List.length_cons, List.length_nil]
    omega
  simp only [Draft.patchTo, sized] at patched
  split at patched
  next small =>
    cases patched
    refine ⟨⟨?_, ?_, ?_⟩, small, rfl⟩
    · have writtenEq (operands : List UInt8) :
          (⟨opcode, operands⟩ : Emission).written draft.heapSlots = opcode :=
        Emission.written_of_promoted?_eq_none noAccess _
      have length : origin =
          (assemble draft.heapSlots before ++ opcode.toByte :: first).length +
            2 := by
        simp only [List.length_append, length_assemble,
          List.length_cons, originEq]
        omega
      have bytes : draft.code.toList =
          (assemble draft.heapSlots before ++ opcode.toByte :: first) ++
            high :: low :: assemble draft.heapSlots after := by
        simp [holds.bytes, Emission.bytes, writtenEq]
      have expected : assemble draft.heapSlots (before ++
            ⟨opcode, first ++ Instruction.shortBytes (totalSize after)⟩ ::
              after) =
          (assemble draft.heapSlots before ++ opcode.toByte :: first) ++
            UInt8.ofNat (totalSize after / 256) :: UInt8.ofNat
              (totalSize after % 256) :: assemble draft.heapSlots after := by
        simp [Emission.bytes, writtenEq, Instruction.shortBytes]
      rw [expected]
      exact toList_patched bytes length _ _
    · intro emission member
      simp only [List.mem_append, List.mem_cons] at member
      rcases member with old | rfl | old
      · exact holds.complete emission (by simp [old])
      · have complete := holds.complete ⟨opcode, first ++ [high, low]⟩ (by simp)
        simpa [Emission.Complete, Instruction.shortBytes] using complete
      · exact holds.complete emission (by simp [old])
    · intro emission member
      simp only [List.mem_append, List.mem_cons] at member
      rcases member with old | rfl | old
      · exact holds.inRange emission (by simp [old])
      · simp [noAccess]
      · exact holds.inRange emission (by simp [old])
  next => cases patched

/-! ## Slots -/

/-- A heap with one more slot makes no difference to emissions that do not
access the slot. -/
theorem assemble_insertSlot {slot : UInt8}
    {heap : List UInt8} {emissions : List Emission}
    (unused : ∀ emission ∈ emissions, emission.opcode.promoted?.isSome →
      emission.byte ≠ slot) :
    assemble (insertSlot slot heap) emissions = assemble heap emissions := by
  induction emissions with
  | nil => rfl
  | cons emission others inner =>
      rw [assemble_cons, assemble_cons,
        inner fun other member => unused other (List.mem_cons_of_mem _ member)]
      have same : emission.written (insertSlot slot heap) =
          emission.written heap := by
        unfold Emission.written
        cases promotes : emission.opcode.promoted? with
        | none => rfl
        | some boxed =>
            have different := unused emission List.mem_cons_self
              (by simp [promotes])
            simp [different]
      rw [Emission.bytes, Emission.bytes, same]

/-- Promoting a slot keeps the emissions. -/
theorem Holds.promote (holds : draft.Holds emissions) (slot : UInt8) :
    (draft.promote slot).Holds emissions := by
  unfold Draft.promote
  split
  · exact holds
  next unboxed =>
    have new : slot ∉ draft.heapSlots := by simpa [isHeap] using unboxed
    refine ⟨?_, holds.complete, holds.inRange⟩
    have promoted := promoteAll_assemble new [] emissions []
      (by simpa using holds.bytes : draft.code.toList = _)
    simpa [walk_assemble holds.bytes holds.complete] using promoted

theorem mem_heapSlots_promote {slot other : UInt8} :
    other ∈ (draft.promote slot).heapSlots ↔ other = slot ∨
    other ∈ draft.heapSlots := by
  unfold Draft.promote
  split
  next boxed =>
    have held : slot ∈ draft.heapSlots := by simpa [isHeap] using boxed
    constructor
    · exact .inr
    · rintro (rfl | old)
      · exact held
      · exact old
  next => exact mem_insertSlot

theorem grows_promote (draft : Draft) (slot : UInt8) :
    draft.Grows (draft.promote slot) where
  arity := by
    unfold Draft.promote
    split <;> rfl
  pools := by
    unfold Draft.promote
    split <;> exact .refl _
  heap := fun _ held => mem_heapSlots_promote.2 (.inr held)

theorem Sound.promote
    (sound : draft.Sound)
    {slot : UInt8}
    (present : slot.toNat < draft.slots.length) :
    (draft.promote slot).Sound := by
  unfold Draft.promote
  split
  · exact sound
  · refine { sound with heap := ?_, captured := ?_, functions := ?_ }
    · intro other member
      rcases mem_insertSlot.1 member with rfl | old
      · exact present
      · exact sound.heap other old
    · exact fun capture member =>
        mem_insertSlot.2 (.inr (sound.captured capture member))
    · intro identity inner member
      obtain ⟨innerSound, captures⟩ := sound.functions identity inner member
      exact ⟨innerSound, fun other held =>
        mem_insertSlot.2 (.inr (captures other held))⟩

/-- A later state of a draft that nobody has written to in between. -/
structure Keeps (draft later : Draft) : Prop extends draft.Grows later where
  holds : ∀ {emissions}, draft.Holds emissions → later.Holds emissions

theorem Keeps.refl (draft : Draft) : draft.Keeps draft :=
  ⟨.refl _, id⟩

theorem Keeps.trans {first second third : Draft}
    (early : first.Keeps second)
    (late : second.Keeps third) :
    first.Keeps third :=
  ⟨early.toGrows.trans late.toGrows, fun holds =>
    late.holds (early.holds holds)⟩

theorem keeps_promote (draft : Draft) (slot : UInt8) :
    draft.Keeps (draft.promote slot) :=
  ⟨draft.grows_promote slot, fun holds => holds.promote slot⟩

/-- A declaration gives the next slot. -/
theorem declare_eq {name : String} {line : UInt32}
    {slot : UInt8}
    (declared : draft.declare name line = .ok (slot, later)) :
    slot.toNat = draft.slots.length ∧ later = draft.addSlot name slot := by
  simp only [Draft.declare] at declared
  split at declared
  next room =>
    cases declared
    exact ⟨UInt8.toNat_ofNat_of_lt' room, rfl⟩
  next => cases declared

/-- A captured name gets the next slot, which is boxed. -/
theorem declareCapture_eq {name : String}
    {outerSlot slot : UInt8} {line : UInt32}
    (captured : draft.declareCapture name outerSlot line = .ok (slot, later)) :
    slot.toNat = draft.slots.length ∧ later = { draft.addSlot name slot with
      heapSlots := insertSlot slot draft.heapSlots
      captures := draft.captures ++ [(outerSlot, slot)] } := by
  obtain ⟨⟨_, plain⟩, declared, result⟩ := Outcome.bind_eq_ok.1 captured
  obtain ⟨slotEq, rfl⟩ := declare_eq declared
  cases result
  exact ⟨slotEq, rfl⟩

/-- A jump back is appended whose distance has room. -/
theorem emitLoop_eq {destination : Nat} {line : UInt32}
    (looped : draft.emitLoop destination line = .ok later) :
    later = draft.emit .loop
      (Instruction.shortBytes (draft.code.size + 3 - destination)) line := by
  simp only [Draft.emitLoop] at looped
  split at looped
  · cases looped
    rfl
  · cases looped

/-- A name has its index already, or it gets the next one. -/
theorem nameIndex_cases {name : String} {line : UInt32}
    {index : UInt8}
    (named : draft.nameIndex name line = .ok (index, later)) :
    draft.nameIndices.find? name = some index ∧ later = draft ∨
      draft.nameIndices.find? name = none ∧ draft.names.length < 256 ∧
        index.toNat = draft.names.length ∧
        later = { draft with
          names := draft.names ++ [name]
          nameIndices := draft.nameIndices.insert name index } := by
  simp only [Draft.nameIndex] at named
  split at named
  next held found =>
    cases named
    exact .inl ⟨found, rfl⟩
  next new =>
    split at named
    next room =>
      cases named
      exact .inr ⟨new, room, UInt8.toNat_ofNat_of_lt' room, rfl⟩
    next => cases named

/-- The value is a scalar that has an index already. -/
def Shares (draft : Draft) (value : Value) : Prop :=
  value.isScalar ∧ value ∈ draft.constants

/-- A constant is found only where it stands, and only if it is a scalar. -/
theorem getElem?_of_findIdx? {value : Value}
    {position : Nat}
    (found :
      (draft.constants.findIdx? fun other => value.isScalar && other.isScalar &&
        other.eq value) = some position) :
    value.isScalar ∧ draft.constants[position]? = some value := by
  obtain ⟨present, matching, _⟩ := List.findIdx?_eq_some_iff_getElem.1 found
  simp only [Bool.and_eq_true] at matching
  obtain ⟨⟨scalar, heldScalar⟩, equal⟩ := matching
  refine ⟨scalar, ?_⟩
  rw [List.getElem?_eq_getElem present]
  exact congrArg some (Value.eq_of_isScalar scalar heldScalar equal)

theorem not_shares_of_findIdx? {value : Value}
    (absent :
      (draft.constants.findIdx? fun other => value.isScalar && other.isScalar &&
        other.eq value) = none) :
    ¬ draft.Shares value := by
  rintro ⟨scalar, member⟩
  have differs := List.findIdx?_eq_none_iff.1 absent value member
  simp [scalar, Value.eq_self] at differs

/-- A constant shares the index of an equal scalar, or it gets the next one. -/
theorem addConstant_cases {value : Value} {line : UInt32}
    {index : UInt8}
    (pooled : draft.addConstant value line = .ok (index, later)) :
    draft.Shares value ∧
    (draft.constants.length ≤ 256 →
      draft.constants[index.toNat]? = some value) ∧
        later = draft ∨
      ¬ draft.Shares value ∧ draft.constants.length < 256 ∧
      index.toNat = draft.constants.length ∧
        later = { draft with constants := draft.constants ++ [value] } := by
  simp only [Draft.addConstant] at pooled
  split at pooled
  next position found =>
    cases pooled
    obtain ⟨scalar, stands⟩ := getElem?_of_findIdx? found
    refine .inl ⟨⟨scalar, List.mem_of_getElem? stands⟩, fun room => ?_, rfl⟩
    have small : position < 256 :=
      Nat.lt_of_lt_of_le (List.getElem?_eq_some_iff.1 stands).1 room
    rw [UInt8.toNat_ofNat_of_lt' small]
    exact stands
  next absent =>
    split at pooled
    next free =>
      cases pooled
      exact .inr ⟨not_shares_of_findIdx? absent, free,
        UInt8.toNat_ofNat_of_lt' free, rfl⟩
    next => cases pooled

/-- Declaring a name gives it a slot that was not there before. -/
theorem Sound.declare
    (sound : draft.Sound)
    {name : String} {line : UInt32} {slot : UInt8}
    (declared : draft.declare name line = .ok (slot, later)) :
    later.Sound ∧ draft.Keeps later ∧ slot.toNat = draft.slots.length ∧
      later = draft.addSlot name slot := by
  simp only [Draft.declare] at declared
  split at declared
  next room =>
    cases declared
    have slotEq : (UInt8.ofNat draft.slots.length).toNat = draft.slots.length :=
      UInt8.toNat_ofNat_of_lt' room
    have more := draft.length_slots_addSlot name
      (UInt8.ofNat draft.slots.length)
    have grows {count : Nat} (below : count < draft.slots.length) :
        count <
          (draft.addSlot name (UInt8.ofNat draft.slots.length)).slots.length :=
      more ▸ Nat.lt_succ_of_lt below
    have locals : draft.slots.length ≤
        (draft.addSlot name (UInt8.ofNat draft.slots.length)).slots.length :=
      more ▸ Nat.le_succ _
    refine ⟨?_, ⟨⟨rfl, ⟨List.prefix_refl _, List.prefix_refl _, locals⟩,
      fun _ held => held⟩, fun holds =>
          ⟨holds.bytes, holds.complete, fun emission member access =>
        grows (holds.inRange emission member access)⟩⟩, slotEq, rfl⟩
    refine { sound with
      slotsRoom := more ▸ room
      slotBelow := ?_
      arity := grows sound.arity
      heap := fun slot held => grows (sound.heap slot held) }
    intro entry member
    rw [slots_addSlot] at member
    rcases List.mem_cons.1 member with rfl | old
    · rw [more, slotEq]
      exact Nat.lt_succ_self _
    · exact grows (sound.slotBelow entry old)
  next => cases declared

/-- Declaring a captured name boxes a slot that no emission accesses yet. -/
theorem Sound.declareCapture
    (sound : draft.Sound)
    {name : String} {outerSlot slot : UInt8} {line : UInt32}
    (declared : draft.declareCapture name outerSlot line = .ok (slot, later)) :
    later.Sound ∧ draft.Keeps later ∧ slot.toNat < later.slots.length ∧
      later.captures = draft.captures ++ [(outerSlot, slot)] := by
  obtain ⟨⟨newSlot, plain⟩, plainDeclared, result⟩ :=
    Outcome.bind_eq_ok.1 declared
  obtain ⟨plainSound, plainKeeps, slotEq, plainEq⟩ :=
    sound.declare plainDeclared
  cases result
  have below : slot.toNat < plain.slots.length := by
    rw [plainEq, slotEq, length_slots_addSlot]
    exact Nat.lt_succ_self _
  refine ⟨?_, ?_, below, by rw [plainEq]; rfl⟩
  · refine { plainSound with heap := ?_, captured := ?_, functions := ?_ }
    · intro other held
      rcases mem_insertSlot.1 held with rfl | old
      · exact below
      · exact plainSound.heap other old
    · intro capture member
      rcases List.mem_append.1 member with old | new
      · exact mem_insertSlot.2 (.inr (plainSound.captured capture old))
      · cases List.mem_singleton.1 new
        exact mem_insertSlot.2 (.inl rfl)
    · intro identity inner member
      obtain ⟨innerSound, captures⟩ :=
        plainSound.functions identity inner member
      exact ⟨innerSound, fun other held =>
        mem_insertSlot.2 (.inr (captures other held))⟩
  · refine ⟨⟨plainKeeps.arity, plainKeeps.pools, fun other held =>
      mem_insertSlot.2 (.inr (plainKeeps.heap other held))⟩,
      fun {emissions} holds => ?_⟩
    have plainHolds := plainKeeps.holds holds
    refine ⟨?_, plainHolds.complete, plainHolds.inRange⟩
    rw [assemble_insertSlot]
    · exact plainHolds.bytes
    · intro emission member access same
      have := holds.inRange emission member access
      rw [same, slotEq] at this
      exact Nat.lt_irrefl _ this

/-- Declaring a captured name changes no emission, since none of them accesses
the new slot. -/
theorem Holds.declareCapture
    (holds : draft.Holds emissions)
    {name : String} {outerSlot slot : UInt8} {line : UInt32}
    (declared : draft.declareCapture name outerSlot line = .ok (slot, later)) :
    later.Holds emissions := by
  obtain ⟨slotEq, rfl⟩ := declareCapture_eq declared
  refine ⟨?_, holds.complete, fun emission member access =>
    draft.length_slots_addSlot name slot ▸
      Nat.lt_succ_of_lt (holds.inRange emission member access)⟩
  rw [assemble_insertSlot]
  · exact holds.bytes
  · intro emission member access same
    have below := holds.inRange emission member access
    rw [same, slotEq] at below
    exact Nat.lt_irrefl _ below

/-! ## Pools -/

/-- A name gets an index at which it stands. -/
theorem Sound.nameIndex_eq
    (sound : draft.Sound)
    {name : String} {line : UInt32} {index : UInt8}
    (named : draft.nameIndex name line = .ok (index, later)) :
    later.names[index.toNat]? = some name := by
  rcases nameIndex_cases named with ⟨found, rfl⟩ | ⟨_, _, indexEq, rfl⟩
  · exact sound.namesIndexed name index found
  · simp [indexEq]

/-- A name gets an index that is there. -/
theorem Sound.nameIndex
    (sound : draft.Sound)
    {name : String} {line : UInt32} {index : UInt8}
    (named : draft.nameIndex name line = .ok (index, later)) :
    later.Sound ∧ draft.Keeps later ∧ index.toNat < later.names.length ∧
      later.captures = draft.captures := by
  have stands := sound.nameIndex_eq named
  have present : index.toNat < later.names.length :=
    (List.getElem?_eq_some_iff.1 stands).1
  rcases nameIndex_cases named with ⟨_, rfl⟩ | ⟨_, room, indexEq, rfl⟩
  · exact ⟨sound, .refl _, present, rfl⟩
  · refine ⟨{ sound with namesRoom := ?_, namesIndexed := ?_ },
      ⟨⟨rfl, ⟨List.prefix_refl _, List.prefix_append _ _, Nat.le_refl _⟩,
        fun _ held => held⟩, fun holds =>
          ⟨holds.bytes, holds.complete, holds.inRange⟩⟩, present, rfl⟩
    · rw [List.length_append]
      exact room
    · intro other position found
      by_cases same : other = name
      · rw [same, Dictionary.find?_insert_self] at found
        cases found
        rw [same]
        exact stands
      · rw [Dictionary.find?_insert_of_ne _ _ same] at found
        have old := sound.namesIndexed other position found
        rw [List.getElem?_append_left (List.getElem?_eq_some_iff.1 old).1]
        exact old

/-- A constant gets an index at which it stands. -/
theorem Sound.addConstant
    (sound : draft.Sound)
    {value : Value} {line : UInt32} {index : UInt8}
    (pooled : draft.addConstant value line = .ok (index, later))
    (function : ∀ identity inner, value = .function identity inner →
      inner.Sound ∧ ∀ slot ∈ inner.capturesOuter, slot ∈ draft.heapSlots) :
    later.Sound ∧ draft.Keeps later ∧ later.captures = draft.captures ∧
      later.constants[index.toNat]? = some value := by
  rcases addConstant_cases pooled with ⟨_, stands, rfl⟩ | ⟨_, free, place, rfl⟩
  · exact ⟨sound, .refl _, rfl, stands sound.constantsRoom⟩
  · refine ⟨{ sound with
        constantsRoom := by rw [List.length_append]; exact free
        functions := ?_ },
      ⟨⟨rfl, ⟨List.prefix_append _ _, List.prefix_refl _, Nat.le_refl _⟩,
        fun _ held => held⟩, fun holds =>
          ⟨holds.bytes, holds.complete, holds.inRange⟩⟩, rfl, ?_⟩
    · intro identity inner member
      rcases List.mem_append.1 member with old | new
      · exact sound.functions identity inner old
      · exact function identity inner (List.mem_singleton.1 new).symm
    · rw [place]
      exact List.getElem?_concat_length

/-! ## Beginning and end -/

theorem declareAll_spec {line : UInt32}
    {names : List String}
    (declared : draft.declareAll line names = .ok later)
    (room : draft.slots.length ≤ 256)
    (below : ∀ entry ∈ draft.slots, entry.2.toNat < draft.slots.length) :
    ∃ slotNames, later =
        { draft with debug := { draft.debug with slotNames := slotNames } } ∧
      later.slots.length = draft.slots.length + names.length ∧
      later.slots.length ≤ 256 ∧
      ∀ entry ∈ later.slots, entry.2.toNat < later.slots.length := by
  induction names generalizing draft with
  | nil =>
      cases declared
      exact ⟨later.debug.slotNames, rfl, rfl, room, below⟩
  | cons name names inner =>
      obtain ⟨⟨slot, next⟩, first, others⟩ := Outcome.bind_eq_ok.1 declared
      simp only [Draft.declare] at first
      split at first
      next free =>
        cases first
        have slotEq : (UInt8.ofNat draft.slots.length).toNat =
            draft.slots.length :=
          UInt8.toNat_ofNat_of_lt' free
        have more := draft.length_slots_addSlot name
          (UInt8.ofNat draft.slots.length)
        obtain ⟨slotNames, laterEq, count, few, ordered⟩ :=
          inner others (more ▸ free) (by
          intro entry member
          rw [slots_addSlot] at member
          rcases List.mem_cons.1 member with rfl | old
          · rw [more, slotEq]
            exact Nat.lt_succ_self _
          · exact more ▸ Nat.lt_succ_of_lt (below entry old))
        refine ⟨slotNames, laterEq, ?_, few, ordered⟩
        rw [count, more, List.length_cons]
        omega
      next => cases first

/-- A draft that has just been started holds no code. -/
theorem start_spec {name : String}
    {parameters : List String} {line : UInt32}
    (started : Draft.start name parameters line = .ok draft) :
    draft.Sound ∧ draft.Holds [] ∧ draft.arity = parameters.length ∧
    draft.captures = [] := by
  obtain ⟨slotNames, draftEq, count, few, ordered⟩ :=
    declareAll_spec started (Nat.zero_le _) (by simp [slots])
  subst draftEq
  refine ⟨⟨few, ordered, Nat.zero_le _, Nat.zero_le _, by
    simp [Dictionary.find?], ?_, by simp, by simp,
    by simp⟩, ⟨rfl, by simp, by simp⟩, rfl, rfl⟩
  rw [count, List.length_cons]
  exact Nat.lt_of_lt_of_le (Nat.lt_succ_self _) (Nat.le_add_left _ _)

/-- A sound draft that holds typed code and a return is finished to a sound
template. -/
theorem Sound.finish
    (sound : draft.Sound) (code : Code) (typed : code.Typed 0)
    (single : code.heightAfter 0 = 1)
    (fits : code.Fits)
    (valid : code.Valid draft.pools)
    (holds : draft.Holds (code.emissions ++ [⟨.return, []⟩])) :
    draft.finish.Sound := by
  refine .intro code ?_
    (fun identity inner member => (sound.functions identity inner member).1)
    fun identity inner member => (sound.functions identity inner member).2
  constructor
  · exact holds.bytes
  · exact typed
  · exact single
  · exact fits
  · exact valid
  · exact sound.arity
  · exact sound.heap
  · intro slot member
    obtain ⟨capture, held, rfl⟩ := List.mem_map.1 member
    exact sound.captured capture held
  · simp [Draft.finish]

end EffectScript.Draft
