import EffectScript.Proofs.Attempt
import EffectScript.Proofs.Surveying

/-!
# The layout of compiled code

The code of a compiled function is a sequence of whole instructions that ends
with its only return. Control never leaves the instructions: jumps lead forward
and loops backward to the beginning of one, and so does the end of every
attempt. An attempt ends right behind the instruction that removes its handlers,
which counts all of them. Operands name constants, names and slots that the
function has.

That an attempt counts its handlers is shown for structured code, where the ends
of different attempts are different: `Tallied` says it of any stretch of
instructions, so that stretches can be put one behind the other.
-/

namespace EffectScript

/-- Whether the instruction registers a handler of an attempt that ends at an
offset. -/
def Instruction.registersUntil (stop : Nat) (instruction : Instruction) :
    Bool :=
  instruction.opcode = .setHandler ∧ instruction.attemptEnd = stop

/-- The operand of the instruction names something that the template has. -/
def Instruction.Refers (template : Template) (instruction : Instruction) :
    Prop :=
  match instruction.opcode with
  | .loadConst => ∃ value, template.constants[instruction.byte.toNat]? =
        some value ∧
      (value.int?.isSome ∨ value.str?.isSome)
  | .makeClosure => ∃ identity inner,
      template.constants[instruction.byte.toNat]? =
        some (.function identity inner)
  | .loadGlobal | .storeGlobal | .perform | .setHandler =>
      instruction.byte.toNat < template.names.length
  | .loadLocal | .storeLocal | .loadHeap | .storeHeap =>
      instruction.byte.toNat < template.locals
  | _ => True

namespace Template

/-- The instructions of a template, in order. -/
def instructions (template : Template) : List Instruction :=
  (Instruction.walk template.code).instructions

/-- One of the instructions begins at the offset. -/
def BeginsAt (template : Template) (offset : Nat) : Prop :=
  ∃ instruction ∈ template.instructions, instruction.offset = offset

/-- The code of the template is well laid out. -/
structure WellLaid (template : Template) : Prop where
  faultless : (Instruction.walk template.code).fault = none
  covers : template.instructions.flatMap Instruction.encode =
    template.code.toList
  decodes : ∀ instruction ∈ template.instructions,
    Instruction.decode template.code instruction.offset = .ok instruction
  returns : ∃ front last, template.instructions = front ++ [last] ∧
    last.opcode = .return ∧
    ∀ instruction ∈ front, instruction.opcode ≠ .return
  jumps : ∀ instruction ∈ template.instructions,
    instruction.opcode = .jump ∨ instruction.opcode = .jumpIfFalse →
      template.BeginsAt (instruction.next + instruction.short)
  loops : ∀ instruction ∈ template.instructions, instruction.opcode = .loop →
    instruction.short ≤ instruction.next ∧
      instruction.next - instruction.short < instruction.offset ∧
      template.BeginsAt (instruction.next - instruction.short)
  attempts : ∀ instruction ∈ template.instructions, instruction.opcode =
      .setHandler →
    template.BeginsAt instruction.attemptEnd ∧
      ∃ ending ∈ template.instructions, ending.opcode = .popHandlers ∧
        ending.next = instruction.attemptEnd ∧
        ending.byte.toNat =
          template.instructions.countP
            (Instruction.registersUntil instruction.attemptEnd)
  operands : ∀ instruction ∈ template.instructions, instruction.Refers template
  constantsRoom : template.constants.length ≤ 256
  namesRoom : template.names.length ≤ 256
  localsRoom : template.locals ≤ 256
  lines : template.debug.lines.size = template.code.size
  uniform : ∀ instruction ∈ template.instructions, ∃ line,
    ∀ index < instruction.opcode.size,
      template.debug.lines[instruction.offset + index]? = some line

end Template

/-! ## Attempts count their handlers -/

/-- Every attempt in a stretch of instructions ends inside the stretch, right
behind an instruction that counts its handlers. -/
def Tallied (start stop : Nat) (instructions : List Instruction) : Prop :=
  ∀ instruction ∈ instructions, instruction.opcode = .setHandler →
    start < instruction.attemptEnd ∧ instruction.attemptEnd ≤ stop ∧
      ∃ ending ∈ instructions, ending.opcode = .popHandlers ∧
        ending.next = instruction.attemptEnd ∧
        ending.byte.toNat =
          instructions.countP
            (Instruction.registersUntil instruction.attemptEnd)

namespace Tallied

variable {start middle stop : Nat} {instructions others : List Instruction}

/-- Without handlers there is nothing to count. -/
theorem of_none
    (unguarded : ∀ instruction ∈ instructions,
      instruction.opcode ≠ .setHandler) :
    Tallied start stop instructions :=
  fun instruction member guarded =>
    absurd guarded (unguarded instruction member)

/-- No attempt of a stretch ends outside of it. -/
theorem countP_eq_zero
    (tallied : Tallied start stop instructions)
    {offset : Nat}
    (outside : offset ≤ start ∨ stop < offset) :
    instructions.countP (Instruction.registersUntil offset) = 0 := by
  refine List.countP_eq_zero.2 fun instruction member registers => ?_
  obtain ⟨guarded, ends⟩ : instruction.opcode = .setHandler ∧
      instruction.attemptEnd = offset := by
    simpa [Instruction.registersUntil] using registers
  obtain ⟨low, high, _⟩ := tallied instruction member guarded
  omega

/-- Stretches one behind the other. -/
theorem append
    (tallied : Tallied start middle instructions)
    (behind : Tallied middle stop others)
    (low : start ≤ middle) (high : middle ≤ stop) :
    Tallied start stop (instructions ++ others) := by
  intro instruction member guarded
  rcases List.mem_append.1 member with early | late
  · obtain ⟨after, before, ending, held, closes, next, count⟩ :=
      tallied instruction early guarded
    refine ⟨after, by omega, ending, List.mem_append_left _ held,
      closes, next, ?_⟩
    rw [List.countP_append, behind.countP_eq_zero (.inl before), count,
      Nat.add_zero]
  · obtain ⟨after, before, ending, held, closes, next, count⟩ :=
      behind instruction late guarded
    refine ⟨by omega, before, ending, List.mem_append_right _ held,
      closes, next, ?_⟩
    rw [List.countP_append, tallied.countP_eq_zero (.inr after), count,
      Nat.zero_add]

/-- A stretch under the handlers of an attempt, with the instruction that
removes them. -/
theorem guarded {registered : List Instruction}
    {ending : Instruction}
    (tallied : Tallied middle stop instructions)
    (low : start ≤ middle) (order : middle ≤ stop)
    (until_ : ∀ instruction ∈ registered, instruction.opcode = .setHandler →
      instruction.attemptEnd = ending.next)
    (closes : ending.opcode = .popHandlers)
    (high : stop < ending.next)
    (count : ending.byte.toNat = registered.countP
      (Instruction.registersUntil ending.next)) :
    Tallied start ending.next (registered ++ (instructions ++ [ending])) := by
  have endingRegisters (offset : Nat) :
      ending.registersUntil offset = false := by
    simp [Instruction.registersUntil, closes]
  have isEnding : ending ∈ registered ++ (instructions ++ [ending]) := by simp
  intro instruction member guarded
  simp only [List.mem_append, List.mem_singleton] at member
  simp only [List.countP_append, List.countP_singleton, endingRegisters,
    Bool.false_eq_true, if_false, Nat.add_zero]
  rcases member with registers | inside | rfl
  · rw [until_ instruction registers guarded,
      tallied.countP_eq_zero (.inr high)]
    exact ⟨by omega, Nat.le_refl _, ending, isEnding, closes, rfl, count⟩
  · obtain ⟨after, before, inner, held, innerCloses, next, innerCount⟩ :=
      tallied instruction inside guarded
    have apart : registered.countP
        (Instruction.registersUntil instruction.attemptEnd) = 0 := by
      refine List.countP_eq_zero.2 fun other otherMember registers => ?_
      obtain ⟨otherGuarded, same⟩ : other.opcode = .setHandler ∧
          other.attemptEnd = instruction.attemptEnd := by
        simpa [Instruction.registersUntil] using registers
      rw [until_ other otherMember otherGuarded] at same
      omega
    rw [apart, Nat.zero_add]
    exact ⟨by omega, by omega, inner, by simp [held], innerCloses,
      next, innerCount⟩
  · rw [closes] at guarded
    cases guarded

end Tallied

/-- All registrations of clauses are for the attempt that ends `rest` bytes
behind them. -/
theorem registersUntil_registrations {rest stop : Nat}
    (heap : List UInt8) (start : Nat)
    (clauses : List (UInt8 × UInt8))
    (ends : start + 6 * clauses.length + rest = stop)
    (small : clauses ≠ [] → 6 * (clauses.length - 1) + rest ≤ 65535) :
    (placed heap start (Code.registrations rest clauses)).countP
      (Instruction.registersUntil stop) =
        clauses.length ∧
      ∀ instruction ∈ placed heap start (Code.registrations rest clauses),
        instruction.opcode = .setHandler → instruction.attemptEnd = stop := by
  induction clauses generalizing start with
  | nil => simp [Code.registrations, placed]
  | cons clause others inner =>
      have room := small (List.cons_ne_nil _ _)
      simp only [List.length_cons, Nat.add_sub_cancel] at room ends
      obtain ⟨count, each⟩ := inner (start + 6) (by omega) (fun _ => by omega)
      let making : Emission := ⟨.makeClosure, [clause.1]⟩
      let registering : Emission :=
        ⟨.setHandler, clause.2 :: Instruction.shortBytes
          (6 * others.length + rest)⟩
      have parts : placed heap start
          (Code.registrations rest (clause :: others)) =
          making.placedAt heap start :: registering.placedAt heap (start + 2) ::
            placed heap (start + 6) (Code.registrations rest others) := rfl
      have stopEq :
          (registering.placedAt heap (start + 2)).attemptEnd = stop := by
        have nextEq : (registering.placedAt heap (start + 2)).next =
            start + 2 + 4 :=
          next_placedAt (show registering.Complete from rfl) _
        rw [Instruction.attemptEnd, trailingShort_placedAt _ _ _ _ room, nextEq]
        omega
      have making? : (making.placedAt heap start).registersUntil
          stop = false := by
        simp [Instruction.registersUntil, making, Emission.placedAt,
          Emission.written, Opcode.promoted?]
      have registering? : (registering.placedAt heap (start + 2)).registersUntil
          stop = true := by
        have opcodeEq : (registering.placedAt heap (start + 2)).opcode =
            .setHandler :=
          Emission.written_of_promoted?_eq_none
            (show registering.opcode.promoted? = none from rfl) heap
        simp [Instruction.registersUntil, stopEq, opcodeEq]
      rw [parts]
      refine ⟨?_, ?_⟩
      · simp [making?, registering?, count]
      · intro instruction member guarded
        simp only [List.mem_cons] at member
        rcases member with rfl | rfl | later
        · cases guarded
        · exact stopEq
        · exact each instruction later guarded

namespace Tallied

variable {heap : List UInt8} {start : Nat} {emissions others : List Emission}

theorem placed_append
    (tallied : Tallied start (start + totalSize emissions)
      (placed heap start emissions))
    (behind : Tallied (start + totalSize emissions)
      (start + totalSize emissions + totalSize others)
        (placed heap (start + totalSize emissions) others)) :
    Tallied start (start + totalSize (emissions ++ others))
      (placed heap start (emissions ++ others)) := by
  rw [EffectScript.placed_append, totalSize_append, ← Nat.add_assoc]
  exact tallied.append behind (Nat.le_add_right _ _) (Nat.le_add_right _ _)

theorem placed_cons {emission : Emission}
    (unguarded : emission.opcode ≠ .setHandler)
    (behind : Tallied (start + emission.size)
      (start + emission.size + totalSize emissions)
        (placed heap (start + emission.size) emissions)) :
    Tallied start (start + totalSize (emission :: emissions))
      (placed heap start (emission :: emissions)) := by
  refine @placed_append heap start [emission] emissions
    (.of_none fun instruction member guarded => ?_) behind
  cases List.mem_singleton.1 member
  exact unguarded (Emission.opcode_of_written (by decide) guarded)

theorem placed_nil :
    Tallied start (start + totalSize []) (placed heap start []) :=
  .of_none (by simp [placed])

end Tallied

/-- The attempts of structured code count their handlers. -/
theorem Code.tallied
    (code : Code)
    {height : Nat}
    (typed : code.Typed height)
    (fits : code.Fits) (heap : List UInt8) (start : Nat) :
    Tallied start (start + totalSize code.emissions)
      (placed heap start code.emissions) := by
  induction code generalizing height start with
  | nothing => exact .placed_nil
  | plain emission =>
      refine .placed_cons (fun guarded => ?_) .placed_nil
      have plain := typed.1
      simp [Emission.isPlain, guarded] at plain
  | sequence first second firstTallied secondTallied =>
      exact (firstTallied typed.1 fits.1 _).placed_append
        (secondTallied typed.2 fits.2 _)
  | branch condition consequence alternative conditionTallied consequenceTallied
        alternativeTallied =>
      exact (conditionTallied typed.1 fits.1 _).placed_append <|
        .placed_cons (by simp) <|
        (consequenceTallied typed.2.2.1 fits.2.1 _).placed_append <|
          .placed_cons (by simp) <|
        alternativeTallied typed.2.2.2.1 fits.2.2.1 _
  | loop condition body conditionTallied bodyTallied =>
      exact (conditionTallied typed.1 fits.1 _).placed_append <|
        .placed_cons (by simp) <|
        (bodyTallied typed.2.2.1 fits.2.1 _).placed_append <|
          .placed_cons (by simp) .placed_nil
  | attempt clauses body bodyTallied =>
      obtain ⟨bodyFits, few, small⟩ := fits
      have inside := bodyTallied typed.2.1 bodyFits (start + 6 * clauses.length)
      let closing : Emission := ⟨.popHandlers, [UInt8.ofNat clauses.length]⟩
      let ending := closing.placedAt heap
        (start + 6 * clauses.length + body.size)
      have stopEq : ending.next = start + 6 * clauses.length + body.size + 2 :=
        next_placedAt (show closing.Complete from rfl) _
      have countEq : ending.byte.toNat = clauses.length :=
        UInt8.toNat_ofNat_of_lt' (show clauses.length < 256 by omega)
      obtain ⟨count, until_⟩ :=
        @registersUntil_registrations (body.size + 2) ending.next heap start
        clauses (by omega) (fun nonempty => by have := small nonempty; omega)
      have parts : placed heap start (Code.attempt clauses body).emissions =
          placed heap start (registrations (body.size + 2) clauses) ++
            (placed heap (start + 6 * clauses.length) body.emissions ++
              [ending]) := by
        simp [emissions, placed, ending, closing]
      rw [totalSize_emissions] at inside
      rw [parts, totalSize_emissions,
          show start + (Code.attempt clauses body).size = ending.next by
        rw [stopEq, size]; omega]
      exact inside.guarded (by omega) (by omega) until_ rfl (by omega)
        (by rw [count, countEq])

/-- An emission in the body of a function: it does not return, and if it repeats
something, it jumps back over more than itself. -/
def Emission.StaysInside (emission : Emission) : Prop :=
  emission.opcode ≠ .return ∧
    (emission.opcode = .loop → ∀ heap offset,
      3 < (emission.placedAt heap offset).short)

theorem Emission.StaysInside.of_ne {emission : Emission}
    (returns : emission.opcode ≠ .return)
    (repeats : emission.opcode ≠ .loop) :
    emission.StaysInside :=
  ⟨returns, fun opcode => absurd opcode repeats⟩

theorem Code.staysInside_of_mem_registrations {rest : Nat}
    {clauses : List (UInt8 × UInt8)} {emission : Emission}
    (member : emission ∈ registrations rest clauses) :
    emission.StaysInside := by
  induction clauses with
  | nil => cases member
  | cons clause others inner =>
      simp only [registrations, List.mem_cons] at member
      rcases member with rfl | rfl | later
      · exact .of_ne (by simp) (by simp)
      · exact .of_ne (by simp) (by simp)
      · exact inner later

theorem Code.staysInside {code : Code} {height : Nat}
    (typed : code.Typed height)
    (fits : code.Fits)
    {emission : Emission}
    (member : emission ∈ code.emissions) :
    emission.StaysInside := by
  induction code generalizing height with
  | nothing => cases member
  | plain placed =>
      cases List.mem_singleton.1 member
      have plain := typed.1
      constructor <;> intro opcode <;> simp [Emission.isPlain, opcode] at plain
  | sequence first second firstStays secondStays =>
      rcases List.mem_append.1 member with early | late
      · exact firstStays typed.1 fits.1 early
      · exact secondStays typed.2 fits.2 late
  | branch condition consequence alternative conditionStays consequenceStays
        alternativeStays =>
      simp only [emissions, List.mem_append, List.mem_cons] at member
      rcases member with inside | rfl | inside | rfl | inside
      · exact conditionStays typed.1 fits.1 inside
      · exact .of_ne (by simp) (by simp)
      · exact consequenceStays typed.2.2.1 fits.2.1 inside
      · exact .of_ne (by simp) (by simp)
      · exact alternativeStays typed.2.2.2.1 fits.2.2.1 inside
  | loop condition body conditionStays bodyStays =>
      simp only [emissions, List.mem_append, List.mem_cons, List.not_mem_nil,
        or_false] at member
      rcases member with inside | rfl | inside | rfl
      · exact conditionStays typed.1 fits.1 inside
      · exact .of_ne (by simp) (by simp)
      · exact bodyStays typed.2.2.1 fits.2.1 inside
      · refine ⟨by simp, fun _ heap offset => ?_⟩
        rw [short_placedAt _ _ _ fits.2.2]
        omega
  | attempt clauses body bodyStays =>
      simp only [emissions, List.mem_append, List.mem_singleton] at member
      rcases member with inside | inside | rfl
      · exact staysInside_of_mem_registrations inside
      · exact bodyStays typed.2.1 fits.1 inside
      · exact .of_ne (by simp) (by simp)

/-! ## Sound templates -/

namespace Template.LaidOut

variable {template : Template} {code : Code} {instruction : Instruction}

/-- The instructions are those of the body and the final return. -/
theorem instructions_eq (laidOut : template.LaidOut code) :
    template.instructions = placed template.heapSlots 0 code.emissions ++
      [(⟨.return, []⟩ : Emission).placedAt template.heapSlots code.size] := by
  rw [instructions, laidOut.walk]
  simp [annotations, placed]

theorem beginsAt
    (laidOut : template.LaidOut code)
    {offset : Nat} {shape : Shape}
    (known : code.Known offset shape) :
    template.BeginsAt offset := by
  obtain ⟨emission, here⟩ := known
  exact ⟨_, laidOut.mem_walk here, rfl⟩

theorem decodes
    (laidOut : template.LaidOut code)
    (member : instruction ∈ template.instructions) :
    Instruction.decode template.code instruction.offset = .ok instruction := by
  obtain ⟨shape, emission, here, placedEq⟩ := laidOut.at_of_mem_walk member
  rw [laidOut.decode here, ← placedEq]

/-- Together the instructions are the code. -/
theorem covers (laidOut : template.LaidOut code) :
    template.instructions.flatMap Instruction.encode =
      template.code.toList := by
  have encoded (offset : Nat) (emissions : List Emission) :
      (placed template.heapSlots offset emissions).flatMap Instruction.encode =
        assemble template.heapSlots emissions := by
    induction emissions generalizing offset with
    | nil => rfl
    | cons emission others inner =>
        rw [placed, List.flatMap_cons, inner, assemble_cons]
        rfl
  rw [instructions, laidOut.walk, encoded, laidOut.bytes]
  simp [annotations]

theorem returns (laidOut : template.LaidOut code) :
    ∃ front last, template.instructions = front ++ [last] ∧
      last.opcode = .return ∧
      ∀ instruction ∈ front, instruction.opcode ≠ .return := by
  refine ⟨_, _, laidOut.instructions_eq, rfl,
    fun instruction member returns => ?_⟩
  obtain ⟨before, emission, after, parts, rfl⟩ := exists_of_mem_placed member
  have inside : emission ∈ code.emissions := by simp [parts]
  exact (Code.staysInside laidOut.typed laidOut.fits inside).1
    (Emission.opcode_of_written (by decide) returns)

theorem jumps
    (laidOut : template.LaidOut code)
    (member : instruction ∈ template.instructions)
    (opcode : instruction.opcode = .jump ∨ instruction.opcode = .jumpIfFalse) :
    template.BeginsAt (instruction.next + instruction.short) := by
  obtain ⟨shape, emission, here, placedEq⟩ := laidOut.at_of_mem_walk member
  rw [placedEq] at opcode ⊢
  have operation : emission.opcode = .jump ∨ emission.opcode = .jumpIfFalse :=
    opcode.imp (Emission.opcode_of_written (by decide))
      (Emission.opcode_of_written (by decide))
  obtain ⟨leads | ⟨rfl, _⟩, _, complete, _⟩ := laidOut.follow here
  · rw [next_placedAt complete]
    cases leads with
    | plain plain => rcases operation with jump
    | jump <;> simp [Emission.isPlain, jump] at plain
    | jump small onward =>
        rw [short_placedAt _ _ _ small]
        exact laidOut.beginsAt onward
    | jumpIfFalse small _ _ around =>
        rw [short_placedAt _ _ _ small]
        exact laidOut.beginsAt around
    | loop | making | registering | closing => simp at operation
  · simp at operation

theorem loops
    (laidOut : template.LaidOut code)
    (member : instruction ∈ template.instructions)
    (opcode : instruction.opcode = .loop) :
    instruction.short ≤ instruction.next ∧
      instruction.next - instruction.short < instruction.offset ∧
      template.BeginsAt (instruction.next - instruction.short) := by
  obtain ⟨shape, emission, here, placedEq⟩ := laidOut.at_of_mem_walk member
  have repeats : emission.opcode = .loop := by
    rw [placedEq] at opcode
    exact Emission.opcode_of_written (by decide) opcode
  have inside : emission ∈ code.emissions := by
    rcases Code.at_iff.1 here with located | ⟨_, _, rfl⟩
    · obtain ⟨before, after, parts, _⟩ := located.split
      rw [Code.map_annotated] at parts
      simp [parts]
    · cases repeats
  have far : 3 < instruction.short := by
    rw [placedEq]
    exact (Code.staysInside laidOut.typed laidOut.fits inside).2 repeats _ _
  have nextEq : instruction.next = instruction.offset + 3 := by
    rw [Instruction.next, opcode]
    rfl
  obtain ⟨leads | ⟨rfl, _⟩, _⟩ := laidOut.follow here
  · rw [nextEq]
    cases leads with
    | plain plain => simp [Emission.isPlain, repeats] at plain
    | @loop distance small bounded back =>
        have shortEq : instruction.short = distance := by
          rw [placedEq, short_placedAt _ _ _ small]
        rw [shortEq] at far ⊢
        exact ⟨bounded, by omega, laidOut.beginsAt back⟩
    | jump | jumpIfFalse | making | registering | closing => cases repeats
  · cases repeats

theorem attempts
    (laidOut : template.LaidOut code)
    (member : instruction ∈ template.instructions)
    (opcode : instruction.opcode = .setHandler) :
    template.BeginsAt instruction.attemptEnd ∧
      ∃ ending ∈ template.instructions, ending.opcode = .popHandlers ∧
        ending.next = instruction.attemptEnd ∧
        ending.byte.toNat =
          template.instructions.countP
            (Instruction.registersUntil instruction.attemptEnd) := by
  have tallied : Tallied 0 (0 + totalSize (code.emissions ++ [⟨.return, []⟩]))
      template.instructions := by
    rw [instructions, laidOut.walk, annotations, List.map_append,
      Code.map_annotated]
    exact (code.tallied laidOut.typed laidOut.fits _ _).placed_append
      (.placed_cons (by simp) .placed_nil)
  obtain ⟨_, _, ending, held, closes, next, count⟩ :=
    tallied instruction member opcode
  refine ⟨?_, ending, held, closes, next, count⟩
  -- Behind the instruction that removes the handlers there is another one.
  obtain ⟨shape, emission, here, placedEq⟩ := laidOut.at_of_mem_walk held
  rw [placedEq] at closes
  have operation : emission.opcode = .popHandlers :=
    Emission.opcode_of_written (by decide) closes
  obtain ⟨leads | ⟨rfl, _⟩, _, complete, _⟩ := laidOut.follow here
  · rw [← next, placedEq, next_placedAt complete]
    cases leads with
    | plain _ _ onward => exact laidOut.beginsAt onward
    | closing _ _ _ _ _ onward => exact laidOut.beginsAt onward
    | jump | jumpIfFalse | loop | making | registering => cases operation
  · cases operation

theorem operands
    (laidOut : template.LaidOut code)
    (pooled : ∀ value ∈ template.constants, value.isPooled)
    (member : instruction ∈ template.instructions) :
    instruction.Refers template := by
  obtain ⟨shape, emission, here, placedEq⟩ := laidOut.at_of_mem_walk member
  have valid :
      emission.Valid ⟨template.constants, template.names, template.locals⟩ :=
    (laidOut.follow here).2.2.2
  have direct := laidOut.direct here
  have byteEq : instruction.byte = emission.byte := by
    rw [placedEq]
    rfl
  have opcodeEq : instruction.opcode = emission.written template.heapSlots := by
    rw [placedEq]
    rfl
  unfold Instruction.Refers
  rw [opcodeEq, byteEq]
  rcases emission.written_cases template.heapSlots
    with same | ⟨access, boxed⟩ | ⟨access, boxed⟩
  · rw [same]
    cases operation : emission.opcode with
    | loadConst =>
        rw [Emission.Valid, operation] at valid
        obtain ⟨value, held, scalar⟩ := valid
        have constant := pooled value (List.mem_of_getElem? held)
        refine ⟨value, held, ?_⟩
        cases value with
        | int number => exact .inl rfl
        | str text => exact .inr rfl
        | nil | bool => cases constant
        | _ => cases scalar
    | makeClosure =>
        rw [Emission.Valid, operation] at valid
        obtain ⟨inner, identity, held⟩ := valid
        exact ⟨identity, inner, held⟩
    | loadLocal | storeLocal | loadGlobal | storeGlobal | perform
    | setHandler =>
        simpa [Emission.Valid, operation] using valid
    | loadHeap | storeHeap =>
        rw [operation] at direct
        cases direct
    | _ => trivial
  · simpa [boxed, Emission.Valid, access] using valid
  · simpa [boxed, Emission.Valid, access] using valid

end Template.LaidOut

/-- A sound template that is as its sketch tells is well laid out. -/
theorem Sketch.Describes.wellLaid
    {enclosing : List Registry} {sketch : Sketch} {template : Template}
    {code : Code}
    (describes : sketch.Describes enclosing template)
    (laidOut : template.LaidOut code) : template.WellLaid where
  faultless := by rw [laidOut.walk_eq]
  covers := laidOut.covers
  decodes _ := laidOut.decodes
  returns := laidOut.returns
  jumps _ := laidOut.jumps
  loops _ := laidOut.loops
  attempts _ := laidOut.attempts
  operands _ := laidOut.operands describes.constants
  constantsRoom := describes.constantsRoom
  namesRoom := describes.namesRoom
  localsRoom := describes.localsRoom
  lines := describes.lines
  uniform := describes.uniform

/-! ## Attempts of the text -/

/-- How many clauses the attempt has that ends with the event. -/
def Event.clauses? : Event → Option Nat
  | .attempts clauses => some clauses
  | _ => none

/-- How many handlers the instruction removes. -/
def Instruction.removed? (instruction : Instruction) : Option Nat :=
  if instruction.opcode = .popHandlers then
    some instruction.byte.toNat else none

/-- The handlers that the instructions of the template remove are the clauses of
the attempts of the sketch, attempt by attempt in the order of their ends. -/
def Sketch.ClosesAttempts (sketch : Sketch) (template : Template) : Prop :=
  template.instructions.filterMap Instruction.removed? =
    sketch.events.filterMap Event.clauses?

/-- Exactly the ends of attempts become instructions that remove handlers. -/
theorem Event.Appears.removed?_eq {chain : List Registry}
    {names : List String} {event : Event} {instruction : Instruction}
    (appears : event.Appears chain names instruction.opcode instruction.byte) :
    instruction.removed? = event.clauses? := by
  unfold Instruction.removed?
  rcases appears with becomes | ⟨_, named, access⟩
  · cases event with
    | reads name level | writes name level =>
        have other : instruction.opcode ≠ .popHandlers := by
          cases level <;> intro closes <;>
            simp [Event.Becomes, closes] at becomes
        simp [other, Event.clauses?]
    | attempts clauses => simp [becomes.1, becomes.2, Event.clauses?]
    | repeats =>
        simp [show instruction.opcode = .loop from becomes, Event.clauses?]
  · have other : instruction.opcode ≠ .popHandlers := by
      intro closes
      rw [closes] at access
      cases access
    cases event with
    | reads name level | writes name level => simp [other, Event.clauses?]
    | attempts clauses | repeats => cases named

theorem Sketch.Describes.closesAttempts
    {enclosing : List Registry} {sketch : Sketch} {template : Template}
    (describes : sketch.Describes enclosing template) :
    sketch.ClosesAttempts template := by
  have marked : template.eventInstructions.filterMap Instruction.removed? =
      template.instructions.filterMap Instruction.removed? := by
    rw [Template.eventInstructions, Template.instructions,
      List.filterMap_filter]
    refine List.filterMap_congr fun instruction _ => ?_
    split
    · rfl
    next unmarked =>
      rw [Instruction.removed?, if_neg]
      intro closes
      exact unmarked (by rw [closes]; rfl)
  have agree {events : List Event} {instructions : List Instruction}
      (appear : List.Forall₂ (fun event instruction =>
        event.Appears (template.registry :: enclosing) template.names
          instruction.opcode instruction.byte) events instructions) :
      instructions.filterMap Instruction.removed? =
        events.filterMap Event.clauses? := by
    induction appear with
    | nil => rfl
    | cons appears _ inner =>
        rw [List.filterMap_cons, List.filterMap_cons,
          appears.removed?_eq, inner]
  rw [ClosesAttempts, ← marked]
  exact agree describes.events

/-- Compiled code is well laid out. The code of every function of a program that
compiles is a sequence of whole instructions with one return, which is the last
of them. Jumps and the ends of attempts are forward at the beginning of an
instruction, loops lead backward to one, and an attempt ends behind an
instruction that removes as many handlers as the code registers for that attempt
and as the attempt has clauses in the text. Operands name what the function has,
the pools have room for operands of one byte, and all bytes of an instruction
have one line. -/
theorem compiled_code_is_well_laid_out {program : Block}
    {script : Template}
    (compiled : program.compile = .ok script) :
    (∀ template, script.Contains template → template.WellLaid) ∧
      program.sketch.Matches
        (fun _ sketch template => sketch.ClosesAttempts template)
          [] script := by
  have described := Block.compileWith_described compiled
  refine ⟨fun template contains => ?_, described.imp fun _ _ _ describes =>
    describes.closesAttempts⟩
  obtain ⟨scriptSound, _⟩ := Block.compileWith_sound compiled
  obtain ⟨scriptTidy, _⟩ := Block.compileWith_tidy compiled
  cases (contains.sound scriptSound scriptTidy).1 with
  | intro code laidOut _ _ =>
      obtain ⟨_, _, templateMatches⟩ := described.of_contains contains
      exact templateMatches.here.wellLaid laidOut

/-- A repetition around an attempt with one clause around a choice around an
attempt with two clauses. -/
theorem nested_attempts_are_well_laid_out :
    ∃ (program : Block) (script inner : Template),
      program.compile = .ok script ∧
      script.Contains inner ∧
      (inner.instructions.filter (·.opcode = .setHandler)).map (·.attemptEnd) =
        [47, 41, 41] ∧
      (inner.instructions.filter (·.opcode = .popHandlers)).map (fun ending =>
        (ending.next, ending.byte)) = [(41, 2), (47, 1)] ∧
      (inner.instructions.filter (·.opcode = .loop)).map (fun instruction =>
        (instruction.offset, instruction.next - instruction.short)) =
          [(49, 1)] ∧
      inner.WellLaid := by
  obtain ⟨program, script, inner, compiled, contains, checked⟩ :=
    @exists_firstFunction
    "fn f(n) { while n > 0 { n = try { if n > 1 {
       try { do a(n) } handle a(x) { resume(x) } handle b(x) { nil } } } handle
         c(x) { x } } }"
    (fun inner => decide
      ((inner.instructions.filter (·.opcode = .setHandler)).map (·.attemptEnd) =
          [47, 41, 41] ∧
        (inner.instructions.filter (·.opcode = .popHandlers)).map (fun ending =>
          (ending.next, ending.byte)) = [(41, 2), (47, 1)] ∧
        (inner.instructions.filter (·.opcode = .loop)).map (fun instruction =>
          (instruction.offset, instruction.next - instruction.short)) =
            [(49, 1)]))
    (by decide +kernel)
  rw [decide_eq_true_eq] at checked
  exact ⟨program, script, inner, compiled, contains, checked.1, checked.2.1,
    checked.2.2, (compiled_code_is_well_laid_out compiled).1 inner contains⟩

end EffectScript
