import EffectScript.Proofs.Coherence

/-!
# The equality operator

Equality of values is an equivalence that identity refines. The operators `==`
and `!=` answer with it: for scalars by a rule, for lists and maps by the
methods that every machine has from the beginning, and for everything else by
the fallback, which asks for identity. Which of the three it is depends on the
left operand almost alone, but all of them come to the same.
-/

namespace EffectScript

/-! ## Equality and identity -/

/-- Identity and equality are equivalences, and values that are the same are
equal. In a memory, equality is what a look at all elements would say, although
it stops early at shared nodes and at shared maps. All values of a machine are
in one memory, at any time in any session. -/
theorem Value.equality_and_identity_are_equivalences :
    (∀ value : Value, value.eq value = true ∧ value.same value = true) ∧
    (∀ left right : Value, left.eq right = right.eq left ∧
      left.same right = right.same left) ∧
    (∀ first second third : Value, first.same second = true →
      second.same third = true →
      first.same third = true) ∧
    (∀ left right : Value, left.same right = true → left.eq right = true) ∧
    (∀ memory : Memory,
      (∀ first second third, memory.holds first → memory.holds second →
        memory.holds third →
        first.eq second = true → second.eq third = true →
        first.eq third = true) ∧
      ∀ left right, memory.holds left → memory.holds right →
        (left.eq right = true ↔ left.Alike right)) ∧
    ∀ limits outlet sources machine,
      Machine.SessionOf limits outlet sources machine →
      (∃ memory : Memory, machine.Everywhere memory.holds) ∧
      ∀ source file script start count later,
        compileSource source file = .ok script →
        machine.load script = .running start →
        start.reached count = some later →
        ∃ memory : Memory, later.Everywhere memory.holds := by
  refine ⟨fun value => ⟨eq_self value, same_self value⟩,
    fun left right => ⟨eq_comm left right, same_comm left right⟩,
    fun _ _ _ => same_trans, fun _ _ => eq_of_same,
    fun memory => ⟨fun _ _ _ => memory.eq_trans, fun _ _ =>
      memory.eq_iff_alike⟩, ?_⟩
  intro limits outlet sources machine session
  constructor
  · obtain ⟨memory, _, everywhere, _⟩ := session.coherent
    exact ⟨memory, everywhere⟩
  · intro source file script start count later compiled loads reaches
    obtain ⟨memory, _, everywhere, _⟩ :=
      session.coherent_reached compiled loads reaches
    exact ⟨memory, everywhere⟩

/-- Lists with one identity and different elements, which no memory holds, are
taken to be equal. -/
example : (Value.list [⟨0, .int 1⟩]).eq (.list [⟨0, .int 2⟩]) =
    true := by decide

namespace Machine

variable {machine : Machine} {frame : Frame} {below : List Frame}
    {left right value : Value} {rest : List Value}

/-! ## Comparing operands -/

/-- The machine has the methods that a fresh one has, and no others. -/
def Seeded (machine : Machine) : Prop :=
  ∀ typeName operator, machine.methods.find? typeName operator =
    (fresh machine.limits machine.outlet).methods.find? typeName operator

theorem push_of_room
    (room : frame.stack.length < machine.limits.stackCapacity) :
    ({ machine with frames := frame :: below } : Machine).push value =
      .ok { machine with frames := frame.given value :: below } := by
  unfold Machine.push Frame.push
  rw [top_eq rfl, Outcome.ok_bind, if_pos room, Outcome.ok_bind, setTop_eq rfl]
  rfl

/-- Called as a method, a native function that compares its arguments leaves
their equality. -/
theorem equality_by_method {native : Builtin}
    (compares : native = .listEq ∨ native = .mapEq)
    (room : frame.stack.length + 3 ≤ machine.limits.stackCapacity) :
    (do
      let withMethod ← ({ machine with frames := frame :: below } :
        Machine).push (.builtin native)
      let withLeft ← withMethod.push left
      let withRight ← withLeft.push right
      withRight.call 2) =
      .ok { machine with frames := frame.given (.bool (left.eq right)) ::
        below } := by
  rw [push_of_room (by omega), Outcome.ok_bind,
    push_of_room (by simp only [Frame.given, List.length_cons]; omega),
    Outcome.ok_bind, push_of_room
      (by simp only [Frame.given, List.length_cons]; omega), Outcome.ok_bind]
  have applied : native.call
      ({ machine with frames := frame :: below } : Machine) [left, right] =
      .ok
        (.bool (left.eq right), { machine with frames := frame :: below }) := by
    rcases compares with rfl | rfl <;> rfl
  refine (@call_eq _ _ _ (.builtin native) [left, right] frame.stack rfl
    rfl).trans ?_
  simp only [callValue, applied, Frame.given]
  exact push_of_room (by omega)

/-- Lists and maps have methods for equality, other values have none. -/
theorem Seeded.find?_eq (seeded : machine.Seeded) (left : Value) :
    machine.methods.find? left.typeName .eq = none ∧ left.hasParts = false ∨
      ∃ native, machine.methods.find? left.typeName .eq =
          some (.builtin native) ∧
        (native = .listEq ∨ native = .mapEq) := by
  rw [seeded]
  cases left with
  | list nodes => exact .inr ⟨.listEq, rfl, .inl rfl⟩
  | map identity entries => exact .inr ⟨.mapEq, rfl, .inr rfl⟩
  | _ => exact .inl ⟨rfl, rfl⟩

/-- Whatever the operands are, the equality operator leaves their equality. -/
theorem binaryOperator_eq
    (frames : machine.frames = frame :: below)
    (stackEq : frame.stack = right :: left :: rest)
    (seeded : machine.Seeded)
    (room : rest.length + 3 ≤ machine.limits.stackCapacity) :
    machine.binaryOperator .eq = .ok { machine with
      frames := { frame with stack := .bool (left.eq right) :: rest } ::
        below } := by
  unfold binaryOperator
  rw [pop_eq frames stackEq, Outcome.ok_bind]
  simp only
  rw [pop_eq rfl rfl, Outcome.ok_bind]
  simp only [Operator.binary, if_true]
  by_cases scalars : (left.isScalar && right.isScalar) = true
  · rw [if_pos scalars]
    exact @push_of_room machine { frame with stack := rest } below
      _ (by simp only; omega)
  · rw [if_neg scalars]
    rcases seeded.find?_eq
      left with ⟨noMethod, simple⟩ | ⟨native, found, compares⟩
    · simp only [noMethod, Operator.fallback, if_true,
        Value.eq_of_simple simple right, pushResult]
      exact @push_of_room machine { frame with stack := rest } below
        _ (by simp only; omega)
    · simp only [found]
      exact @equality_by_method machine { frame with stack := rest } below
        _ _ native compares room

/-! ## Steps -/

/-- The machine with two operands on top of the operand stack of its newest
frame. -/
def withOperands (machine : Machine) (left right : Value) : Machine :=
  { machine with frames := machine.frames.modifyHead fun frame =>
      { frame with stack := right :: left :: frame.stack } }

/-- The machine with an answer in place of operands, before the instruction at
an offset. -/
def answering (machine : Machine) (place : Nat) (answer : Bool) : Machine :=
  { machine with frames := machine.frames.modifyHead fun frame =>
      { frame with stack := .bool answer :: frame.stack, ip := place } }

/-- The next step of the machine, given the operands, answers that they are
equal. -/
def Equates (machine : Machine) (left right : Value) : Prop :=
  ∃ place, (machine.withOperands left right).step =
    .running (machine.answering place true)

variable {equality negation : Instruction}

theorem withOperands_eq
    (frames : machine.frames = frame :: below)
    (left right : Value) :
    machine.withOperands left right =
      { machine with frames :=
        { frame with stack := right :: left :: frame.stack } :: below } := by
  rw [withOperands, frames, List.modifyHead_cons]

theorem answering_eq
    (frames : machine.frames = frame :: below)
    (place : Nat) (answer : Bool) :
    machine.answering place answer = { machine with
      frames := { frame with stack := .bool answer :: frame.stack, ip :=
        place } :: below } := by
  rw [answering, frames, List.modifyHead_cons]

theorem step_withOperands
    (frames : machine.frames = frame :: below)
    (decodes : Instruction.decode frame.template.code frame.ip = .ok equality)
    (compares : equality.opcode = .eq)
    (seeded : machine.Seeded)
    (room : frame.stack.length + 3 ≤ machine.limits.stackCapacity)
    (left right : Value) :
    (machine.withOperands left right).step =
      .running (machine.answering equality.next (left.eq right)) := by
  rw [withOperands_eq frames, answering_eq frames]
  apply @step_of_execute
    _ _ { frame with stack := right :: left :: frame.stack } below _ rfl decodes
  unfold execute
  rw [top_eq rfl, Outcome.ok_bind]
  simp only [compares]
  have applied := @binaryOperator_eq
    { machine with
      frames := { frame with stack := right :: left :: frame.stack, ip :=
        equality.next } :: below }
    _ below left right frame.stack rfl rfl seeded room
  exact Outcome.bind_eq_ok.2 ⟨_, applied, rfl⟩

/-- Negation turns an answer around. -/
theorem step_answering
    (frames : machine.frames = frame :: below)
    {place : Nat}
    (decodes : Instruction.decode frame.template.code place = .ok negation)
    (negates : negation.opcode = .not)
    (room : frame.stack.length < machine.limits.stackCapacity)
    (answer : Bool) :
    (machine.answering place answer).step =
      .running (machine.answering negation.next (!answer)) := by
  rw [answering_eq frames, answering_eq frames]
  apply @step_of_execute
    _ _ { frame with stack := .bool answer :: frame.stack, ip := place } below _
    rfl decodes
  unfold execute
  rw [top_eq rfl, Outcome.ok_bind]
  simp only [negates]
  rw [pop_eq rfl rfl, Outcome.ok_bind]
  have pushed := @push_of_room machine { frame with ip := negation.next } below
    (.bool (!answer)) room
  exact Outcome.bind_eq_ok.2 ⟨_, pushed, rfl⟩

theorem answering_inj
    (frames : machine.frames = frame :: below)
    {place other : Nat} {answer another : Bool}
    (same : machine.answering place answer = machine.answering other another) :
    answer = another := by
  have tops := congrArg
    (fun machine : Machine => machine.frames.head?.map (·.stack.head?)) same
  simpa [answering_eq frames] using tops

theorem equates_iff
    (frames : machine.frames = frame :: below)
    (decodes : Instruction.decode frame.template.code frame.ip = .ok equality)
    (compares : equality.opcode = .eq)
    (seeded : machine.Seeded)
    (room : frame.stack.length + 3 ≤ machine.limits.stackCapacity)
    (left right : Value) :
    machine.Equates left right ↔ left.eq right = true := by
  have steps := step_withOperands frames decodes compares seeded room left right
  constructor
  · rintro ⟨place, answers⟩
    exact answering_inj frames (Step.running.inj (steps.symm.trans answers))
  · intro equal
    rw [equal] at steps
    exact ⟨equality.next, steps⟩

/-- On a machine with no other methods than those of a fresh one, and with room
for the call of a method, the operation of `==` answers with the equality of its
operands, whatever they are. With the negation behind it, as in `!=`, the answer
is turned around. So `==` is reflexive and symmetric, and it is transitive for
values that exist together. -/
theorem equality_operator_is_structural
    (frames : machine.frames = frame :: below)
    (decodes : Instruction.decode frame.template.code frame.ip = .ok equality)
    (compares : equality.opcode = BinaryOp.eq.opcode)
    (seeded : machine.Seeded)
    (room : frame.stack.length + 3 ≤ machine.limits.stackCapacity) :
    (∀ left right, (machine.withOperands left right).step =
      .running (machine.answering equality.next (left.eq right))) ∧
    (BinaryOp.ne.opcode = BinaryOp.eq.opcode ∧
      BinaryOp.ne.negated = true ∧ ∀ negation,
      Instruction.decode frame.template.code equality.next = .ok negation →
      negation.opcode = .not →
      ∀ left right, (machine.withOperands left right).reached 2 =
        some (machine.answering negation.next (!left.eq right))) ∧
    (∀ value, machine.Equates value value) ∧
    (∀ left right, machine.Equates left right → machine.Equates right left) ∧
    ∀ memory : Memory, ∀ first second third, memory.holds first →
      memory.holds second →
      memory.holds third → machine.Equates first second →
      machine.Equates second third →
      machine.Equates first third := by
  have steps := step_withOperands frames decodes compares seeded room
  have equates := equates_iff frames decodes compares seeded room
  refine ⟨steps, ⟨rfl, rfl, fun negation negationDecodes negates left right =>
    ?_⟩, fun value => ?_,
    fun left right => ?_, fun memory first second third firstHeld secondHeld
      thirdHeld => ?_⟩
  · rw [reached_succ]
    exact ⟨_, (reached_of_step (steps left right) 0).trans rfl,
      step_answering frames negationDecodes negates (by omega) _⟩
  · exact (equates value value).2 (Value.eq_self value)
  · rw [equates, equates, Value.eq_comm]
    exact id
  · rw [equates, equates, equates]
    exact memory.eq_trans firstHeld secondHeld thirdHeld

/-- Two lists of maps are equal by their elements, on a machine that has just
enough room for the method. -/
theorem equality_operator_on_lists_of_maps :
    ∃ (machine : Machine) (frame : Frame) (equality negation : Instruction)
      (left right : Value),
      left = .list [⟨0, .map 1 [("a", .int 2)]⟩] ∧
      right = .list [⟨2, .map 3 [("a", .int 2)]⟩] ∧
      machine.frames = [frame] ∧
      Instruction.decode frame.template.code frame.ip = .ok equality ∧
      equality.opcode = BinaryOp.eq.opcode ∧ machine.Seeded ∧
      frame.stack.length + 3 = machine.limits.stackCapacity ∧
      Instruction.decode frame.template.code equality.next = .ok negation ∧
      negation.opcode = .not ∧
      (machine.withOperands left right).step =
        .running (machine.answering equality.next true) ∧
      (machine.withOperands left right).reached 2 =
        some (machine.answering negation.next false) := by
  let template : Template :=
    ⟨"f", 0, 1, #[Opcode.eq.toByte, Opcode.not.toByte], [], [], {}, [], [], []⟩
  let frame : Frame := ⟨⟨0, template, []⟩, [.nil], [], 0, none⟩
  let machine := { fresh ⟨1, 4⟩ (.collecting "") with frames := [frame] }
  have seeded : machine.Seeded := fun _ _ => rfl
  obtain ⟨answers, ⟨_, _, negated⟩, _⟩ :=
    @equality_operator_is_structural machine frame [] ⟨0, .eq, []⟩ rfl rfl rfl
      seeded (Nat.le_refl 4)
  exact ⟨machine, frame, ⟨0, .eq, []⟩, ⟨1, .not, []⟩, _, _, rfl, rfl, rfl, rfl,
    rfl, seeded, rfl, rfl, rfl, answers _ _, negated ⟨1, .not, []⟩ rfl rfl _ _⟩

end Machine

end EffectScript
