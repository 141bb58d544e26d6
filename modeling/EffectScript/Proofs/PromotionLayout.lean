import EffectScript.Proofs.Destinations

/-!
# Promotion preserves the layout

A promotion rewrites the direct accesses to a slot where they stand. So the
offsets that operations returned for distances to be patched stay those of
their instructions, and it does not matter whether a distance is patched before
or after a promotion.

A slot is promoted once. A direct access that is appended behind that is never
rewritten; when direct accesses are appended to slots in no box only, there is
none.
-/

namespace EffectScript

namespace Instruction

variable {instruction : Instruction} {slot : UInt8}

/-- Accesses to slots are the operations that a promotion can change. -/
theorem Accesses.promoted?_ne_none (accesses : instruction.Accesses slot) :
    instruction.opcode.promoted? ≠ none := by
  rcases accesses.1 with load | store
  · simp [load, Opcode.promoted?]
  · simp [store, Opcode.promoted?]

theorem not_accesses_of_plain (plain : instruction.opcode.promoted? = none) :
    ¬ instruction.Accesses slot :=
  fun accesses => accesses.promoted?_ne_none plain

/-- What goes through the box of a slot accesses another slot, if any. -/
theorem Accesses.of_throughBox {boxed : UInt8}
    (accesses : (instruction.throughBox boxed).Accesses slot) :
    instruction.Accesses slot ∧ slot ≠ boxed := by
  unfold throughBox at accesses
  split at accesses
  next same =>
    refine (accesses.promoted?_ne_none ?_).elim
    change instruction.opcode.throughBox.promoted? = none
    cases instruction.opcode <;> rfl
  next apart => exact ⟨accesses, fun same => apart (accesses.2.trans same)⟩

end Instruction

namespace Draft

variable {draft later : Draft} {instructions : List Instruction}

/-! ## Direct accesses -/

/-- The slots that are accessed directly are there and in no box. -/
def Tended (draft : Draft) : Prop :=
  ∀ instruction ∈ (Instruction.walk draft.code).instructions,
    ∀ slot, instruction.Accesses slot →
      slot.toNat < draft.slots.length ∧ draft.isHeap slot = false

/-- An instruction that is to be appended accesses a slot directly only if the
slot is there and in no box. -/
def Minds (draft : Draft) (opcode : Opcode) (operands : List UInt8) : Prop :=
  ∀ slot, (Instruction.mk draft.code.size opcode operands).Accesses slot →
    slot.toNat < draft.slots.length ∧ draft.isHeap slot = false

theorem minds_of_plain {opcode : Opcode}
    (plain : opcode.promoted? = none)
    (operands : List UInt8) :
    draft.Minds opcode operands :=
  fun _ accesses => (Instruction.not_accesses_of_plain plain accesses).elim

theorem Decodes.tended_iff (decodes : draft.Decodes instructions) :
    draft.Tended ↔ ∀ instruction ∈ instructions, ∀ slot,
      instruction.Accesses slot →
        slot.toNat < draft.slots.length ∧ draft.isHeap slot = false := by
  rw [Tended, show Instruction.walk draft.code = _ from decodes]

namespace Tended

/-- The code stays, and slots and boxes are added for names that nothing
accesses. -/
theorem congr
    (tended : draft.Tended)
    (code : later.code = draft.code)
    (slots : draft.slots.length ≤ later.slots.length)
    (heap : ∀ slot : UInt8, slot.toNat < draft.slots.length →
      later.isHeap slot = draft.isHeap slot) :
    later.Tended := by
  intro instruction member slot accesses
  rw [code] at member
  obtain ⟨present, unboxed⟩ := tended instruction member slot accesses
  exact ⟨Nat.lt_of_lt_of_le present slots, (heap slot present).trans unboxed⟩

theorem emit
    (tended : draft.Tended)
    (decodes : draft.Decodes instructions)
    {opcode : Opcode} {operands : List UInt8}
    (complete : operands.length = opcode.operandCount)
    (minds : draft.Minds opcode operands)
    (line : UInt32) :
    (draft.emit opcode operands line).Tended := by
  rw [decodes.tended_iff] at tended
  rw [(decodes.emit complete line).tended_iff]
  exact List.forall_mem_append.2
    ⟨tended, List.forall_mem_singleton.2 minds⟩

/-- In such a draft a promotion rewrites every direct access. -/
theorem reroutes (tended : draft.Tended) (slot : UInt8) :
    draft.Reroutes slot (draft.promote slot) := by
  refine reroutes_promote fun boxed instruction member accesses => ?_
  exact Bool.eq_false_iff.1 (tended instruction member slot accesses).2 boxed

theorem promote (tended : draft.Tended) (slot : UInt8) :
    (draft.promote slot).Tended := by
  have reroutes := tended.reroutes slot
  have slots : (draft.promote slot).slots = draft.slots := by
    rw [reroutes.others]
    rfl
  intro instruction member other accesses
  rw [reroutes.walk] at member
  obtain ⟨before, held, rfl⟩ := List.mem_map.1 member
  obtain ⟨direct, apart⟩ := accesses.of_throughBox
  obtain ⟨present, unboxed⟩ := tended before held other direct
  refine ⟨slots ▸ present, Bool.eq_false_iff.2 fun boxed => ?_⟩
  rcases (reroutes.boxed other).1 boxed with same | already
  · exact apart same
  · exact Bool.eq_false_iff.1 unboxed already

/-- A trailing result of a statement is taken back. -/
theorem takeBack {offset : Nat}
    (tended : draft.Tended)
    (decodes : draft.Decodes (instructions ++ [⟨offset, .pushNil, []⟩]))
    (code : later.code = draft.code.pop)
    (slots : later.slots = draft.slots)
    (heap : later.heapSlots = draft.heapSlots) :
    later.Tended := by
  rw [decodes.tended_iff] at tended
  rw [(decodes.pop later code).1.tended_iff, slots]
  simp only [isHeap, heap]
  exact fun instruction member =>
    tended instruction (List.mem_append_left _ member)

/-- Instructions with a distance access no slot. -/
theorem patchTo
    (tended : draft.Tended)
    (decodes : draft.Decodes instructions)
    {instruction : Instruction}
    (member : instruction ∈ instructions)
    (wide : 2 ≤ instruction.opcode.operandCount)
    {line : UInt32}
    (patched : draft.patchTo instruction.next line = .ok later) :
    later.Tended := by
  obtain ⟨before, after, reach, rfl, laterDecodes, _⟩ :=
    decodes.patchTo member wide patched
  obtain ⟨slots, heap⟩ :
      later.slots = draft.slots ∧ later.heapSlots = draft.heapSlots := by
    simp only [Draft.patchTo] at patched
    split at patched
    · cases patched
      exact ⟨rfl, rfl⟩
    · cases patched
  rw [decodes.tended_iff, List.forall_mem_append, List.forall_mem_cons]
    at tended
  obtain ⟨early, _, late⟩ := tended
  rw [laterDecodes.tended_iff, slots]
  simp only [isHeap, heap]
  refine List.forall_mem_append.2 ⟨early, List.forall_mem_cons.2 ⟨?_, late⟩⟩
  have plain : (instruction.aimed reach).opcode.promoted? = none :=
    promoted?_of_operandCount wide
  exact fun slot accesses =>
    (Instruction.not_accesses_of_plain plain accesses).elim

end Tended

/-! ## Records -/

namespace Record

variable {record after : Record} {line : UInt32} {operation : Operation}

/-- The operation appends a direct access only to a slot that is there and in no
box. -/
def Heeds (record : Record) : Operation → Prop
  | .emit opcode operands => record.draft.Minds opcode operands
  | _ => True

/-- What is known about the code of a record in which no access goes past a
box. -/
theorem Tracks.tended
    (tracks : record.Tracks instructions)
    (tended : record.draft.Tended)
    (admitted : record.Admits operation)
    (heeds : record.Heeds operation)
    (performed : record.perform line operation = .ok after) :
    after.draft.Tended := by
  have decodes := tracks.decodes
  have plain {opcode : Opcode} (plain : opcode.promoted? = none)
      {operands : List UInt8}
        (complete : operands.length = opcode.operandCount) :
      (record.draft.emit opcode operands line).Tended :=
    tended.emit decodes complete (minds_of_plain plain operands) line
  have patched {site count : Nat} (wide : 2 ≤ count)
      (stands : StandsAt instructions site count) {later : Draft}
      (patched : record.draft.patchTo (site + (count + 1)) line = .ok later) :
      later.Tended := by
    obtain ⟨instruction, member, rfl, rfl⟩ := stands
    exact tended.patchTo decodes member wide patched
  cases operation with
  | declare name =>
      obtain ⟨⟨slot, later⟩, declared, result⟩ := Outcome.bind_eq_ok.1 performed
      cases result
      obtain ⟨_, rfl⟩ := declare_eq declared
      have longer := record.draft.length_slots_addSlot name slot
      exact tended.congr rfl (longer ▸ Nat.le_succ _) fun _ _ => rfl
  | declareCapture name outer =>
      obtain ⟨⟨slot, later⟩, captured, result⟩ := Outcome.bind_eq_ok.1 performed
      cases result
      obtain ⟨slotEq, rfl⟩ := declareCapture_eq captured
      have longer := record.draft.length_slots_addSlot name slot
      refine tended.congr rfl (longer ▸ Nat.le_succ _) fun other present => ?_
      -- The box is for the new slot, which nothing accesses.
      have apart : other ≠ slot := by
        rintro rfl
        exact Nat.lt_irrefl _ (slotEq ▸ present)
      rw [isHeap, isHeap, Bool.eq_iff_iff, List.contains_iff_mem,
        List.contains_iff_mem, mem_insertSlot]
      exact or_iff_right apart
  | addConstant value =>
      obtain ⟨⟨index, later⟩, pooled, result⟩ := Outcome.bind_eq_ok.1 performed
      cases result
      rcases addConstant_cases pooled with ⟨_, _, rfl⟩ | ⟨_, _, _, rfl⟩
      · exact tended
      · exact tended.congr rfl (Nat.le_refl _) fun _ _ => rfl
  | nameIndex name =>
      obtain ⟨⟨index, later⟩, named, result⟩ := Outcome.bind_eq_ok.1 performed
      cases result
      rcases nameIndex_cases named with ⟨_, rfl⟩ | ⟨_, _, _, rfl⟩
      · exact tended
      · exact tended.congr rfl (Nat.le_refl _) fun _ _ => rfl
  | promote slot =>
      cases performed
      exact tended.promote slot
  | emit opcode operands =>
      cases performed
      exact tended.emit decodes admitted heeds line
  | addComment text =>
      cases performed
      have commented := @plain .comment rfl [] rfl
      exact commented.congr rfl (Nat.le_refl _) fun _ _ => rfl
  | emitStatementNil =>
      cases performed
      have pushed := @plain .pushNil rfl [] rfl
      exact pushed.congr rfl (Nat.le_refl _) fun _ _ => rfl
  | discard nils =>
      cases performed
      have popped := @plain .pop rfl [] rfl
      change (record.draft.discard nils line).Tended
      unfold Draft.discard
      split
      next offset known =>
        split
        next =>
          obtain ⟨⟨before, rfl⟩, _⟩ := tracks.removable offset known
          exact tended.takeBack decodes rfl rfl rfl
        next => exact popped
      next => exact popped
  | label =>
      cases performed
      exact tended.congr rfl (Nat.le_refl _) fun _ _ => rfl
  | emitJump opcode =>
      cases performed
      have short : opcode.operandCount = 2 := admitted
      exact plain (promoted?_of_operandCount (Nat.le_of_eq short.symm))
        short.symm
  | emitSetHandler effect =>
      cases performed
      exact @plain .setHandler rfl [effect, 255, 255] rfl
  | patchJump site =>
      obtain ⟨later, patches, result⟩ := Outcome.bind_eq_ok.1 performed
      cases result
      exact patched (Nat.le_refl 2) (tracks.jumps site admitted) patches
  | patchHandler site =>
      obtain ⟨later, patches, result⟩ := Outcome.bind_eq_ok.1 performed
      cases result
      exact patched (by decide) (tracks.handlers site admitted) patches
  | emitLoop destination =>
      obtain ⟨later, looped, result⟩ := Outcome.bind_eq_ok.1 performed
      cases result
      obtain rfl := emitLoop_eq looped
      exact plain rfl rfl

/-- What is to be patched stands where its offset says, and it may be patched
before or after the promotion of any slot. -/
structure KeepsSites (record : Record) : Prop where
  fault : (Instruction.walk record.draft.code).fault = none
  jumps : ∀ site ∈ record.jumps,
    StandsAt (Instruction.walk record.draft.code).instructions site 2 ∧
      ∀ slot line, (record.draft.patchJump site line).map (·.promote slot) =
        (record.draft.promote slot).patchJump site line
  handlers : ∀ site ∈ record.handlers,
    StandsAt (Instruction.walk record.draft.code).instructions site 3 ∧
      ∀ slot line, (record.draft.patchHandler site line).map (·.promote slot) =
        (record.draft.promote slot).patchHandler site line

theorem Tracks.keepsSites (tracks : record.Tracks instructions) :
    record.KeepsSites := by
  have walked : Instruction.walk record.draft.code = ⟨instructions, none⟩ :=
    tracks.decodes
  have patches {site count : Nat} (wide : 2 ≤ count)
      (stands : StandsAt instructions site count) (slot : UInt8)
        (line : UInt32) :
      (record.draft.patchTo (site + (count + 1)) line).map (·.promote slot) =
        (record.draft.promote slot).patchTo (site + (count + 1)) line := by
    obtain ⟨instruction, member, rfl, rfl⟩ := stands
    exact promote_patchTo (walked ▸ member) wide slot line
  constructor
  case fault => rw [walked]
  case jumps =>
    intro site returned
    rw [walked]
    exact ⟨tracks.jumps site returned,
      patches (Nat.le_refl 2) (tracks.jumps site returned)⟩
  case handlers =>
    intro site returned
    rw [walked]
    exact ⟨tracks.handlers site returned,
      patches (by decide) (tracks.handlers site returned)⟩

end Record

/-- Promotion keeps the layout of any code, finished or not. It rewrites the
direct accesses to a slot that is in no box yet, and nothing else. A slot in a
box stays as it is, with all accesses to it. Done twice promotion is done once,
and slots are promoted in any order.

Whatever is done to a new draft, every jump and every registration stands where
its offset says, and it does not matter whether its distance is patched before
or after a promotion. If direct accesses are appended to slots in no box only,
no slot in a box has any, so that a promotion always rewrites them all. -/
theorem promote_preserves_layout :
    (∀ (draft : Draft) (slot : UInt8),
      (draft.isHeap slot = false → draft.Reroutes slot (draft.promote slot)) ∧
      (draft.isHeap slot = true → draft.promote slot = draft) ∧
      (draft.promote slot).promote slot = draft.promote slot ∧
      ∀ other, (draft.promote slot).promote other =
        (draft.promote other).promote slot) ∧
    ∀ name parameters line draft operations,
      Draft.start name parameters line = .ok draft →
      ({ draft := draft } : Record).AdmitsAll operations →
      (({ draft := draft } : Record).run operations).KeepsSites ∧
      (({ draft := draft } : Record).Meets Record.Heeds operations →
        ∀ slot,
          (({ draft := draft } : Record).run operations).draft.Reroutes slot
          ((({ draft := draft } : Record).run operations).draft.promote
            slot)) := by
  constructor
  case left =>
    intro draft slot
    refine ⟨fun unboxed => reroutes_promote fun boxed => ?_, promote_of_isHeap,
      draft.promote_promote slot, draft.promote_comm slot⟩
    rw [unboxed] at boxed
    cases boxed
  case right =>
    intro name parameters line draft operations started admitted
    have unwritten := unwritten_start started
    constructor
    · obtain ⟨instructions, tracks⟩ := Record.run_keeps_of_meets
        (fun record => ∃ instructions, record.Tracks instructions)
        (fun ⟨_, tracks⟩ admitted performed =>
          tracks.perform admitted performed)
        ⟨[], unwritten.tracks⟩ admitted
      exact tracks.keepsSites
    · intro heeded
      have nothing : draft.Tended := by
        rw [unwritten.tracks.decodes.tended_iff]
        exact fun _ member => nomatch member
      obtain ⟨_, tended⟩ := Record.run_keeps_of_meets
        (fun record => (∃ instructions, record.Tracks instructions) ∧
          record.draft.Tended)
        (fun ⟨⟨_, tracks⟩, tended⟩ ⟨admitted, heeds⟩ performed =>
          ⟨tracks.perform admitted performed,
            tracks.tended tended admitted heeds performed⟩)
        ⟨⟨[], unwritten.tracks⟩, nothing⟩ (admitted.and heeded)
      exact tended.reroutes

/-- Code with a jump that is not patched yet, and with operands that look like
an access to the slot. -/
theorem promote_preserves_operands_like_access :
    ∃ draft operations,
      Draft.start "f" [] 1 = .ok draft ∧
      ({ draft := draft } : Record).AdmitsAll operations ∧
      (({ draft := draft } : Record).run operations).jumps = [2] ∧
      (({ draft := draft } : Record).run operations).draft.code =
        #[4, 0, 12, 255, 255, 0, 4, 0, 0, 5, 0] ∧
      (({ draft := draft } : Record).run operations).KeepsSites ∧
      (({ draft := draft } : Record).run operations).draft.Reroutes 0
        ((({ draft := draft } : Record).run operations).draft.promote 0) ∧
      ((({ draft := draft } : Record).run operations).draft.promote 0).code =
        #[6, 0, 12, 255, 255, 0, 4, 0, 0, 7, 0] := by
  let operations : List (UInt32 × Operation) :=
    [(1, .emit .loadLocal [0]), (1, .emitJump .jump), (1, .emit .loadConst [4]),
      (1, .emit .loadConst [0]), (1, .emit .storeLocal [0])]
  let draft : Draft := ({ name := "f" } : Draft).addSlot "f" 0
  have started : Draft.start "f" [] 1 = .ok draft := rfl
  have admitted : ({ draft := draft } : Record).AdmitsAll operations :=
    ⟨rfl, rfl, rfl, rfl, rfl, trivial⟩
  have direct {draft : Draft} {opcode : Opcode}
      (present : 0 < draft.slots.length)
      (unboxed : draft.isHeap 0 = false) : draft.Minds opcode [0] := by
    rintro slot ⟨_, rfl⟩
    exact ⟨present, unboxed⟩
  have heeded : ({ draft := draft } : Record).Meets Record.Heeds operations :=
    ⟨direct Nat.zero_lt_one rfl, trivial, minds_of_plain rfl _,
      minds_of_plain rfl _, direct Nat.zero_lt_one rfl, trivial⟩
  obtain ⟨keepsSites, reroutes⟩ :=
    promote_preserves_layout.2 "f" [] 1 draft operations started admitted
  exact ⟨draft, operations, started, admitted, rfl, rfl, keepsSites,
    reroutes heeded 0, by decide +kernel⟩

/-- A direct access that is appended to a slot in a box stays as it is when the
slot is promoted again: the operations on a draft do not mind boxes. -/
theorem promote_skips_access_behind_box :
    ∃ draft operations,
      Draft.start "f" [] 1 = .ok draft ∧
      ({ draft := draft } : Record).AdmitsAll operations ∧
      Instruction.Accesses 0 ⟨0, .loadLocal, [0]⟩ ∧
      Instruction.walk
          (({ draft := draft } : Record).run operations).draft.code =
        ⟨[⟨0, .loadLocal, [0]⟩], none⟩ ∧
      Instruction.walk
        ((({ draft := draft } : Record).run operations).draft.promote 0).code =
        ⟨[⟨0, .loadLocal, [0]⟩], none⟩ ∧
      ¬ (({ draft := draft } : Record).run operations).draft.Reroutes 0
        ((({ draft := draft } : Record).run operations).draft.promote 0) := by
  let operations : List (UInt32 × Operation) :=
    [(1, .promote 0), (1, .emit .loadLocal [0])]
  let draft : Draft := ({ name := "f" } : Draft).addSlot "f" 0
  have walk : Instruction.walk
      (({ draft := draft } : Record).run operations).draft.code =
      ⟨[⟨0, .loadLocal, [0]⟩], none⟩ := by
    have unwritten : draft.Unwritten :=
      unwritten_start (rfl : Draft.start "f" [] 1 = .ok draft)
    have nothing : (draft.promote 0).code = draft.code := by decide +kernel
    have single : [(0 : UInt8)].length = Opcode.loadLocal.operandCount := rfl
    have decodes := (unwritten.tracks.decodes.congr nothing).emit single 1
    rw [nothing] at decodes
    exact decodes
  have promoted :
      (({ draft := draft } : Record).run operations).draft.promote 0 =
      (({ draft := draft } : Record).run operations).draft := rfl
  refine ⟨draft, operations, rfl, ⟨trivial, rfl, trivial⟩,
    ⟨.inl rfl, rfl⟩, walk, by rw [promoted, walk], fun reroutes => ?_⟩
  have rewritten := reroutes.walk
  rw [promoted, walk] at rewritten
  cases rewritten

end Draft

end EffectScript
