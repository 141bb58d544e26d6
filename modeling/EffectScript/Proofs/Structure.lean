import EffectScript.Proofs.Assembly

/-!
# Structured code

What the compiler writes is structured: jumps only lead around the parts of a
choice or a repetition, and handlers are registered at the start of an attempt
and removed at its end. A tree of `Code` has that structure; its emissions are
the flat sequence that the tree stands for, with all distances filled in.

The *height* of the operand stack is counted above a floor. `Code.Typed` says
that code entered at a height never takes a value from below the floor and that
its branches agree; `Code.heightAfter` is the height that it leaves.
-/

namespace EffectScript

namespace Emission

/-- How many values the operation takes off the operand stack. -/
def pops (emission : Emission) : Nat :=
  match emission.opcode with
  | .storeLocal | .storeGlobal | .pop | .not | .neg | .perform => 1
  | .add | .sub | .mul | .div | .eq | .lt | .gt => 2
  | .call => emission.byte.toNat + 1
  | _ => 0

/-- How many values the operation leaves in their place. -/
def pushes (emission : Emission) : Nat :=
  match emission.opcode with
  | .storeLocal | .storeGlobal | .pop | .popHandlers | .comment => 0
  | _ => 1

/-- Whether control always goes on behind the operation and no handler is
registered or removed. Accesses are emitted in their direct form. -/
def isPlain (emission : Emission) : Bool :=
  match emission.opcode with
  | .loadHeap | .storeHeap | .swap | .jump | .jumpIfFalse | .loop | .return
  | .setHandler => false
  | .popHandlers => emission.byte == 0
  | _ => true

end Emission

/-- Code with its structure. -/
inductive Code where
  | nothing
  | plain (emission : Emission)
  | sequence (first second : Code)
  | branch (condition consequence alternative : Code)
  | loop (condition body : Code)
  /-- A body under handlers, each given by the indices of its function and of
  its effect. -/
  | attempt (clauses : List (UInt8 × UInt8)) (body : Code)

namespace Code

/-- How many bytes the code takes. -/
def size : Code → Nat
  | .nothing => 0
  | .plain emission => emission.size
  | .sequence first second => first.size + second.size
  | .branch condition consequence alternative =>
      condition.size + 3 + consequence.size + 3 + alternative.size
  | .loop condition body => condition.size + 3 + body.size + 3
  | .attempt clauses body => 6 * clauses.length + body.size + 2

/-- The registrations of clauses; `rest` bytes follow them up to the end of the
attempt. -/
def registrations (rest : Nat) : List (UInt8 × UInt8) → List Emission
  | [] => []
  | (function, effect) :: clauses =>
      ⟨.makeClosure, [function]⟩ ::
        ⟨.setHandler, effect :: Instruction.shortBytes
          (6 * clauses.length + rest)⟩ ::
        registrations rest clauses

/-- The flat sequence that the code stands for. -/
def emissions : Code → List Emission
  | .nothing => []
  | .plain emission => [emission]
  | .sequence first second => first.emissions ++ second.emissions
  | .branch condition consequence alternative =>
      condition.emissions ++
        ⟨.jumpIfFalse, Instruction.shortBytes (consequence.size + 3)⟩ ::
        (consequence.emissions ++
          ⟨.jump, Instruction.shortBytes alternative.size⟩ ::
            alternative.emissions)
  | .loop condition body =>
      condition.emissions ++
        ⟨.jumpIfFalse, Instruction.shortBytes (body.size + 3)⟩ ::
        (body.emissions ++
          [⟨.loop, Instruction.shortBytes
            (condition.size + 3 + body.size + 3)⟩])
  | .attempt clauses body =>
      registrations (body.size + 2) clauses ++
        (body.emissions ++ [⟨.popHandlers, [UInt8.ofNat clauses.length]⟩])

@[simp]
theorem totalSize_registrations (rest : Nat) (clauses : List (UInt8 × UInt8)) :
    totalSize (registrations rest clauses) = 6 * clauses.length := by
  induction clauses with
  | nil => rfl
  | cons clause clauses inner =>
      simp only [registrations, totalSize_cons, inner, Emission.size,
        Instruction.shortBytes, List.length_cons, List.length_nil]
      omega

@[simp]
theorem totalSize_emissions (code : Code) :
    totalSize code.emissions = code.size := by
  induction code with
  | nothing => rfl
  | plain emission => simp [emissions, size]
  | sequence first second firstSize secondSize =>
      simp [emissions, size, firstSize, secondSize]
  | branch condition consequence alternative conditionSize consequenceSize
        alternativeSize =>
      simp only [emissions, size, totalSize_append, totalSize_cons,
        conditionSize, consequenceSize, alternativeSize, Emission.size,
        Instruction.shortBytes, List.length_cons, List.length_nil]
      omega
  | loop condition body conditionSize bodySize =>
      simp only [emissions, size, totalSize_append, totalSize_cons,
        totalSize_nil, conditionSize, bodySize, Emission.size,
        Instruction.shortBytes, List.length_cons, List.length_nil]
      omega
  | attempt clauses body bodySize =>
      simp only [emissions, size, totalSize_append, totalSize_cons,
        totalSize_nil, totalSize_registrations, bodySize, Emission.size,
        List.length_cons, List.length_nil]
      omega

/-! ## Heights -/

/-- The height of the operand stack after code that is entered at a height. -/
def heightAfter : Code → Nat → Nat
  | .nothing, height => height
  | .plain emission, height => height - emission.pops + emission.pushes
  | .sequence first second, height =>
      second.heightAfter (first.heightAfter height)
  | .branch condition consequence _, height =>
      consequence.heightAfter (condition.heightAfter height - 1)
  | .loop _ _, height => height
  | .attempt _ _, height => height + 1

/-- Code that may be entered at a height: it takes no value from below the
floor, and wherever two ways meet they bring the same height. -/
def Typed : Code → Nat → Prop
  | .nothing, _ => True
  | .plain emission, height => emission.isPlain ∧ emission.Complete ∧
      emission.pops ≤ height
  | .sequence first second, height => first.Typed height ∧
      second.Typed (first.heightAfter height)
  | .branch condition consequence alternative, height =>
      condition.Typed height ∧ 0 < condition.heightAfter height ∧
        consequence.Typed (condition.heightAfter height - 1) ∧
        alternative.Typed (condition.heightAfter height - 1) ∧
        alternative.heightAfter (condition.heightAfter height - 1) =
          consequence.heightAfter (condition.heightAfter height - 1)
  | .loop condition body, height =>
      condition.Typed height ∧ condition.heightAfter height = height + 1 ∧
        body.Typed height ∧ body.heightAfter height = height
  | .attempt clauses body, _ => clauses ≠ [] ∧ body.Typed 0 ∧
      body.heightAfter 0 = 1

/-- Whether the distances of all jumps and the counts of all clauses have room
in their operands. -/
def Fits : Code → Prop
  | .nothing => True
  | .plain _ => True
  | .sequence first second => first.Fits ∧ second.Fits
  | .branch condition consequence alternative =>
      condition.Fits ∧ consequence.Fits ∧ alternative.Fits ∧
        consequence.size + 3 ≤ 65535 ∧ alternative.size ≤ 65535
  | .loop condition body =>
      condition.Fits ∧ body.Fits ∧ condition.size + 3 + body.size + 3 ≤ 65535
  | .attempt clauses body =>
      body.Fits ∧ clauses.length ≤ 255 ∧
        (clauses ≠ [] → 6 * (clauses.length - 1) + body.size + 2 ≤ 65535)

/-- Values below the floor make no difference. -/
theorem Typed.add {code : Code} {height : Nat}
    (typed : code.Typed height)
    (more : Nat) :
    code.Typed (height + more) ∧
      code.heightAfter (height + more) = code.heightAfter height + more := by
  induction code generalizing height with
  | nothing => exact ⟨trivial, rfl⟩
  | plain emission =>
      obtain ⟨plain, complete, enough⟩ := typed
      refine ⟨⟨plain, complete, by omega⟩, ?_⟩
      simp only [heightAfter]
      omega
  | sequence first second firstAdd secondAdd =>
      obtain ⟨firstTyped, firstHeight⟩ := firstAdd typed.1
      obtain ⟨secondTyped, secondHeight⟩ := secondAdd typed.2
      simp only [Typed, heightAfter, firstHeight]
      exact ⟨⟨firstTyped, secondTyped⟩, secondHeight⟩
  | branch condition consequence alternative conditionAdd consequenceAdd
        alternativeAdd =>
      obtain ⟨conditionTyped, decided, consequenceTyped, alternativeTyped,
        agree⟩ := typed
      obtain ⟨conditionMore, conditionHeight⟩ := conditionAdd conditionTyped
      obtain ⟨consequenceMore, consequenceHeight⟩ :=
        consequenceAdd consequenceTyped
      obtain ⟨alternativeMore, alternativeHeight⟩ :=
        alternativeAdd alternativeTyped
      have shifted : condition.heightAfter height + more - 1 =
          condition.heightAfter height - 1 + more := by omega
      simp only [Typed, heightAfter, conditionHeight, shifted]
      refine ⟨⟨conditionMore, by omega, consequenceMore, alternativeMore, ?_⟩,
        consequenceHeight⟩
      rw [alternativeHeight, consequenceHeight, agree]
  | loop condition body conditionAdd bodyAdd =>
      obtain ⟨conditionTyped, decided, bodyTyped, level⟩ := typed
      obtain ⟨conditionMore, conditionHeight⟩ := conditionAdd conditionTyped
      obtain ⟨bodyMore, bodyHeight⟩ := bodyAdd bodyTyped
      refine ⟨⟨conditionMore, by omega, bodyMore, by omega⟩, rfl⟩
  | attempt clauses body bodyAdd =>
      refine ⟨typed, ?_⟩
      simp only [heightAfter]
      omega

end Code

end EffectScript
