import EffectScript.Proofs.Shape

/-!
# Balanced regions of code

Every instruction takes values off the operand stack and leaves others in their
place. A region of instructions is *balanced* when depths of the operand stack
can be given to its offsets that agree along all ways control can take: the end
of the region is one value deeper than its start, and no instruction inside
takes a value that was there before.

The emissions of structured code that leaves one more value are balanced,
wherever they are placed.
-/

namespace EffectScript

namespace Instruction

/-- How many values the instruction takes off the operand stack. -/
def takes (instruction : Instruction) : Nat :=
  match instruction.opcode with
  | .storeLocal | .storeHeap | .storeGlobal | .pop | .jumpIfFalse | .return
  | .not | .neg
  | .setHandler | .perform => 1
  | .swap | .add | .sub | .mul | .div | .eq | .lt | .gt => 2
  | .call => instruction.byte.toNat + 1
  | .loadConst | .pushNil | .pushTrue | .pushFalse | .loadLocal | .loadHeap
  | .loadGlobal | .jump
  | .loop | .makeClosure | .popHandlers | .comment => 0

/-- How many values the instruction leaves in their place. -/
def leaves (instruction : Instruction) : Nat :=
  match instruction.opcode with
  | .storeLocal | .storeHeap | .storeGlobal | .pop | .jump | .jumpIfFalse
  | .loop | .return
  | .setHandler | .popHandlers | .comment => 0
  | .swap => 2
  | .loadConst | .pushNil | .pushTrue | .pushFalse | .loadLocal | .loadHeap
  | .loadGlobal | .call
  | .add | .sub | .mul | .div | .eq | .lt | .gt | .not | .neg | .makeClosure
  | .perform => 1

/-- Where control may go from the instruction when it is reached at a depth,
with the depths there. Where a handler leads, the result of the attempt is on
top of what was there when the handler was registered. -/
def edges (instruction : Instruction) (depth : Nat) : List (Nat × Nat) :=
  let after := depth - instruction.takes + instruction.leaves
  match instruction.opcode with
  | .jump => [(instruction.next + instruction.short, after)]
  | .jumpIfFalse =>
      [(instruction.next, after), (instruction.next + instruction.short, after)]
  | .loop => [(instruction.next - instruction.short, after)]
  | .setHandler =>
      [(instruction.next, after),
        (instruction.next + instruction.trailingShort, after + 1)]
  | .return => []
  | _ => [(instruction.next, after)]

end Instruction

/-- Depths of the operand stack for the offsets of a region that is entered at a
depth. They agree along every edge, all edges lead into the region or to its
end, and the end is one value deeper. -/
structure Balanced
    (instructions : List Instruction)
    (start stop depth : Nat) (depths : Nat → Nat) : Prop where
  enters : depths start = depth
  ends : depths stop = depth + 1
  /-- No instruction takes a value from below the depth at which the region is
  entered. -/
  above : ∀ instruction ∈ instructions, depth + instruction.takes ≤
    depths instruction.offset
  agrees : ∀ instruction ∈ instructions, ∀ edge ∈ instruction.edges
    (depths instruction.offset),
    depths edge.1 = edge.2 ∧
    (edge.1 = stop ∨ ∃ other ∈ instructions, other.offset = edge.1)
  stays : ∀ instruction ∈ instructions, instruction.opcode ≠ .return

/-- The instructions follow each other from one offset to another. -/
def Spans (start stop : Nat) : List Instruction → Prop
  | [] => start = stop
  | instruction :: others => instruction.offset = start ∧
      Spans instruction.next stop others

/-- Control can come to an offset at a depth, along edges of the
instructions. -/
inductive Comes (instructions : List Instruction) (start depth : Nat) :
    Nat → Nat → Prop
  | start : Comes instructions start depth start depth
  | along {instruction : Instruction} {reached : Nat} {edge : Nat × Nat}
      (comes : Comes instructions start depth instruction.offset reached)
      (member : instruction ∈ instructions)
        (leads : edge ∈ instruction.edges reached) :
      Comes instructions start depth edge.1 edge.2

namespace Balanced

variable {instructions : List Instruction} {start stop depth : Nat}
    {depths : Nat → Nat}

/-- On every way through the region the depths are those given, also when
returns stand behind it. -/
theorem depth_eq
    (balanced : Balanced instructions start stop depth depths)
    {others : List Instruction}
    (returns : ∀ other ∈ others, other.opcode = .return)
    {offset reached : Nat}
    (comes : Comes (instructions ++ others) start depth offset reached) :
    reached = depths offset := by
  induction comes with
  | start => exact balanced.enters.symm
  | along _ member leads inner =>
      rcases List.mem_append.1 member with inside | behind
      · rw [inner] at leads
        exact (balanced.agrees _ inside _ leads).1.symm
      · unfold Instruction.edges at leads
        rw [returns _ behind] at leads
        cases leads

end Balanced

/-! ## Structured code -/

namespace Emission

variable {emission : Emission}

/-- A plain emission takes and leaves as many values as it pops and pushes, with
or without boxes. -/
theorem takes_placedAt_of_plain
    (plain : emission.isPlain) (heap : List UInt8) (offset : Nat) :
    (emission.placedAt heap offset).takes = emission.pops ∧
      (emission.placedAt heap offset).leaves = emission.pushes ∧
      (emission.placedAt heap offset).opcode ≠ .return := by
  have byteEq : (emission.placedAt heap offset).byte = emission.byte := rfl
  unfold Instruction.takes Instruction.leaves pops pushes
  rw [byteEq]
  simp only [placedAt]
  rcases emission.written_cases heap with same | ⟨load, boxed⟩ | ⟨store, boxed⟩
  · rw [same]
    unfold isPlain at plain
    cases operation : emission.opcode <;> simp_all
  · rw [load, boxed]
    exact ⟨rfl, rfl, by decide⟩
  · rw [store, boxed]
    exact ⟨rfl, rfl, by decide⟩

theorem edges_placedAt_of_plain
    (plain : emission.isPlain)
    (complete : emission.Complete)
    (heap : List UInt8) (offset depth : Nat) :
    (emission.placedAt heap offset).edges depth =
      [(offset + emission.size, depth - emission.pops + emission.pushes)] := by
  obtain ⟨takes, leaves, _⟩ := takes_placedAt_of_plain plain heap offset
  unfold Instruction.edges
  rw [takes, leaves, next_placedAt complete]
  simp only [placedAt]
  rcases emission.written_cases heap with same | ⟨load, boxed⟩ | ⟨store, boxed⟩
  · rw [same]
    unfold isPlain at plain
    cases operation : emission.opcode <;> simp_all
  · rw [boxed]
  · rw [boxed]

end Emission

theorem spans_placed {emissions : List Emission}
    (complete : ∀ emission ∈ emissions, emission.Complete)
    (heap : List UInt8) (start : Nat) :
    Spans start (start + totalSize emissions)
      (placed heap start emissions) := by
  induction emissions generalizing start with
  | nil => rfl
  | cons emission others inner =>
      obtain ⟨here, rest⟩ := List.forall_mem_cons.1 complete
      refine ⟨rfl, ?_⟩
      rw [next_placedAt here, totalSize_cons, ← Nat.add_assoc]
      exact inner rest (start + emission.size)

namespace Code

/-- The shape at an offset of code, or at its end. -/
def Reaches
    (code : Code) (start : Nat) (shape : Shape) (offset : Nat)
    (known : Shape) : Prop :=
  (∃ emission, Located (code.annotated start shape) start offset
      known emission) ∨
    offset = start + code.size ∧
    known = shape.raised (code.heightAfter shape.height)

variable {code : Code} {start offset : Nat} {shape known other : Shape}

theorem Reaches.unique
    (reaches : code.Reaches start shape offset known)
    (again : code.Reaches start shape offset other) :
    known = other := by
  have inside {shape' : Shape} {emission : Emission}
      (located : Located (code.annotated start shape) start offset
        shape' emission) :
      offset < start + code.size := by
    have bounds := located.bounds
    rw [map_annotated, totalSize_emissions] at bounds
    have := emission.size_pos
    omega
  rcases reaches with ⟨emission, located⟩ | ⟨place, rfl⟩
  · rcases again with ⟨another, locatedAgain⟩ | ⟨place, _⟩
    · exact (located.unique locatedAgain).1
    · exact absurd (inside located) (Nat.not_lt.2 (Nat.le_of_eq place.symm))
  · rcases again with ⟨another, locatedAgain⟩ | ⟨_, rfl⟩
    · exact absurd (inside locatedAgain)
        (Nat.not_lt.2 (Nat.le_of_eq place.symm))
    · rfl

/-- An offset that is reached is the end, or an instruction stands there. -/
theorem Reaches.place
    (reaches : code.Reaches start shape offset known)
    (heap : List UInt8) :
    offset = start + code.size ∨ ∃ other ∈ placed heap start code.emissions,
      other.offset = offset := by
  rcases reaches with ⟨emission, located⟩ | ⟨place, _⟩
  · obtain ⟨before, after, parts, rfl⟩ := located.split
    rw [map_annotated] at parts
    rw [parts]
    exact .inr ⟨_, mem_placed heap start before after emission, rfl⟩
  · exact .inl place

section Depths

open Classical in
/-- The depth of the operand stack at an offset of code, or at its end. -/
noncomputable def depths
    (code : Code) (start : Nat) (shape : Shape) (offset : Nat) : Nat :=
  if reached : ∃ known, code.Reaches start shape offset known then
    reached.choose.depth else 0

theorem Reaches.depths_eq (reaches : code.Reaches start shape offset known) :
    code.depths start shape offset = known.depth := by
  have reached : ∃ known, code.Reaches start shape offset known :=
    ⟨known, reaches⟩
  rw [depths, dif_pos reached, reached.choose_spec.unique reaches]

end Depths

/-- An instruction takes no values from below the floor, and every edge leads
where its shape says. -/
theorem agrees_of_leads
    (heap : List UInt8)
    {emission : Emission}
    (leads : Leads (code.Reaches start shape) offset known emission)
    (complete : emission.Complete)
    (lands : ∀ {place after}, code.Reaches start shape place after →
      Lands (code.Reaches start shape) after.active) :
    (emission.placedAt heap offset).takes ≤ known.height ∧
      (emission.placedAt heap offset).opcode ≠ .return ∧
      ∀ edge ∈ (emission.placedAt heap offset).edges known.depth,
        ∃ after, code.Reaches start shape edge.1 after ∧
          after.depth = edge.2 := by
  have nextEq := @next_placedAt heap emission complete offset
  cases leads with
  | plain plain enough onward =>
      obtain ⟨takes, _, goesOn⟩ :=
        emission.takes_placedAt_of_plain plain heap offset
      refine ⟨takes ▸ enough, goesOn, ?_⟩
      rw [emission.edges_placedAt_of_plain plain complete]
      simp only [List.mem_singleton, forall_eq]
      refine ⟨_, onward, ?_⟩
      simp only [Shape.depth, Shape.raised_floor, Shape.raised_height]
      omega
  | @jump distance small onward =>
      have short := short_placedAt .jump heap offset small
      refine ⟨Nat.zero_le _, by rintro ⟨⟩, fun edge member => ?_⟩
      cases List.mem_singleton.1 member
      rw [short, nextEq]
      exact ⟨_, onward, rfl⟩
  | @jumpIfFalse distance small decided onward around =>
      have short := short_placedAt .jumpIfFalse heap offset small
      have below : (known.raised (known.height - 1)).depth =
          known.depth - 1 + 0 := by
        simp only [Shape.depth, Shape.raised_floor, Shape.raised_height]
        omega
      refine ⟨decided, by rintro ⟨⟩, fun edge member => ?_⟩
      rcases List.mem_cons.1 member with rfl | member
      · rw [nextEq]
        exact ⟨_, onward, below⟩
      · cases List.mem_singleton.1 member
        rw [short, nextEq]
        exact ⟨_, around, below⟩
  | @loop distance small inside back =>
      have short := short_placedAt .loop heap offset small
      refine ⟨Nat.zero_le _, by rintro ⟨⟩, fun edge member => ?_⟩
      cases List.mem_singleton.1 member
      rw [short, nextEq]
      exact ⟨_, back, rfl⟩
  | making onward =>
      refine ⟨Nat.zero_le _, by rintro ⟨⟩, fun edge member => ?_⟩
      cases List.mem_singleton.1 member
      rw [nextEq]
      exact ⟨_, onward, rfl⟩
  | @registering before function effect distance small made onward =>
      have trailing := trailingShort_placedAt .setHandler effect heap
        offset small
      subst made
      refine ⟨Nat.succ_pos _, by rintro ⟨⟩, fun edge member => ?_⟩
      rcases List.mem_cons.1 member with rfl | member
      · rw [nextEq]
        exact ⟨_, onward, rfl⟩
      · -- The handler leads to where the shape behind its registration says
        -- that it leads.
        cases List.mem_singleton.1 member
        obtain ⟨⟨floor, height, level, target⟩, _⟩ := lands onward
        rw [trailing, nextEq]
        exact ⟨_, target, congrArg (· + 1) level⟩
  | @closing group rest floor height small single level split ends onward =>
      refine ⟨Nat.zero_le _, by rintro ⟨⟩, fun edge member => ?_⟩
      cases List.mem_singleton.1 member
      rw [nextEq]
      refine ⟨_, onward, ?_⟩
      show floor + (height + 1) = known.floor + known.height - 0 + 0
      omega

/-- The emissions of typed code that leaves one more value are balanced wherever
they are placed. -/
theorem balanced
    (code : Code) (typed : code.Typed 0)
    (single : code.heightAfter 0 = 1)
    (fits : code.Fits) (heap : List UInt8) (start depth : Nat) :
    ∃ depths, Balanced (placed heap start code.emissions) start
      (start + code.size) depth depths := by
  let shape : Shape := ⟨depth, 0, [], none⟩
  have enters : code.Enters (code.Reaches start shape) start shape :=
    ⟨typed, rfl, fun located => .inl ⟨_, located⟩, .inr ⟨rfl, rfl⟩⟩
  have leadsTo {offset known emission}
      (located : Located (code.annotated start shape) start offset known
        emission) :=
    code.leads enters fits trivial (by simp [shape]) located
  have lands {place after} (reaches : code.Reaches start shape place after) :
      Lands (code.Reaches start shape) after.active := by
    rcases reaches with ⟨emission, located⟩ | ⟨_, rfl⟩
    · exact (leadsTo located).2.1
    · trivial
  have each (instruction : Instruction)
      (member : instruction ∈ placed heap start code.emissions) :
      depth + instruction.takes ≤ code.depths start shape instruction.offset ∧
        instruction.opcode ≠ .return ∧
        ∀ edge ∈ instruction.edges (code.depths start shape instruction.offset),
          ∃ after, code.Reaches start shape edge.1 after ∧
            after.depth = edge.2 := by
    rw [← code.map_annotated start shape] at member
    obtain ⟨known, emission, located, instructionEq⟩ :=
      Located.of_mem_placed member
    obtain ⟨leads, _, complete⟩ := leadsTo located
    obtain ⟨takes, goesOn, agree⟩ := agrees_of_leads heap leads complete lands
    obtain ⟨_, nested⟩ := code.nested typed fits located
    rw [(enters.annotated located).depths_eq]
    have floor : depth ≤ known.floor := nested.floor
    refine ⟨?_, instructionEq ▸ goesOn, ?_⟩
    · rw [instructionEq]
      exact Nat.add_le_add floor takes
    · rw [instructionEq]
      exact agree
  refine ⟨code.depths start shape, ?_, ?_, ?_, ?_, ?_⟩
  · exact enters.begins.depths_eq
  · rw [enters.ending.depths_eq]
    exact congrArg (depth + ·) single
  · exact fun instruction member => (each instruction member).1
  · intro instruction member edge leads
    obtain ⟨after, reaches, depthEq⟩ := (each instruction member).2.2 edge leads
    exact ⟨reaches.depths_eq.trans depthEq, reaches.place heap⟩
  · exact fun instruction member => (each instruction member).2.1

end Code

end EffectScript
