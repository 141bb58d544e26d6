import EffectScript.Proofs.Structure

/-!
# Shapes of frames

The *shape* at a place of the code says what is known there about every frame
that arrives: how many values its operand stack holds and which handlers it has
registered in attempts that are not complete. Annotating structured code gives
every emission its shape.

The main statement is that annotations are consistent with control flow:
wherever an instruction can send control, the annotation there is the shape that
the instruction leaves, and the end of every attempt is annotated with the shape
in which abandoning the attempt leaves the frame.
-/

namespace EffectScript

/-- A handler that a frame has registered, as far as the code tells. -/
structure Registration where
  /-- The index of the name of the effect. -/
  effect : UInt8
  /-- The index of the constant that the handler is a closure of. -/
  function : UInt8
  /-- How many values were on the operand stack. -/
  depth : Nat
  /-- The offset of the end of the attempt. -/
  target : Nat
  /-- The offset of the instruction that registered it. -/
  site : Nat
deriving DecidableEq

/-- What is known about a frame at some place of its code. -/
structure Shape where
  /-- How many values were on the operand stack when the newest attempt
  began. -/
  floor : Nat
  /-- How many values are on the operand stack above the floor. -/
  height : Nat
  /-- The handlers registered in attempts that are not complete, the newest one
  first. -/
  active : List Registration := []
  /-- The constant that the value on top of the stack is known to be a closure
  of. -/
  made : Option UInt8 := none
deriving DecidableEq

namespace Shape

/-- The shape of a frame that has just been opened. -/
def initial : Shape := ⟨0, 0, [], none⟩

/-- How many values are on the operand stack. -/
def depth (shape : Shape) : Nat :=
  shape.floor + shape.height

/-- The shape with another height. -/
def raised (shape : Shape) (height : Nat) : Shape :=
  { shape with height := height, made := none }

/-- The shape after the closure for a handler is pushed. -/
def making (shape : Shape) (function : UInt8) : Shape :=
  { shape with height := shape.height + 1, made := some function }

/-- The shape after a handler is registered. -/
def register (shape : Shape) (site target : Nat) (function effect : UInt8) :
    Shape :=
  ⟨shape.depth, 0, ⟨effect, function, shape.depth, target, site⟩ ::
    shape.active, none⟩

/-- The shape after the handlers of clauses are registered from an offset on. -/
def registered (rest : Nat) : Nat → Shape → List (UInt8 × UInt8) → Shape
  | _, shape, [] => shape
  | start, shape, (function, effect) :: clauses =>
      registered rest (start + 6)
        (shape.register (start + 2) (start + 6 + (6 * clauses.length + rest))
          function effect) clauses

@[simp]
theorem raised_active (shape : Shape) (height : Nat) :
    (shape.raised height).active = shape.active :=
  rfl

@[simp]
theorem raised_floor (shape : Shape) (height : Nat) :
    (shape.raised height).floor = shape.floor :=
  rfl

@[simp]
theorem raised_height (shape : Shape) (height : Nat) :
    (shape.raised height).height = height :=
  rfl

@[simp]
theorem raised_made (shape : Shape) (height : Nat) :
    (shape.raised height).made = none :=
  rfl

@[simp]
theorem raised_raised (shape : Shape) (height other : Nat) :
    (shape.raised height).raised other = shape.raised other :=
  rfl

theorem raised_self {shape : Shape} (unmade : shape.made = none) :
    shape.raised shape.height = shape := by
  cases shape
  cases unmade
  rfl

end Shape

/-! ## Annotations -/

/-- The registrations of clauses with the shapes before them. -/
def annotateClauses (rest : Nat) :
    Nat → Shape → List (UInt8 × UInt8) → List (Shape × Emission)
  | _, _, [] => []
  | start, shape, (function, effect) :: clauses =>
      (shape, ⟨.makeClosure, [function]⟩) ::
        (shape.making function,
          ⟨.setHandler, effect :: Instruction.shortBytes
            (6 * clauses.length + rest)⟩) ::
        annotateClauses rest (start + 6)
          (shape.register (start + 2) (start + 6 + (6 * clauses.length + rest))
            function effect)
          clauses

/-- The emissions of code that begins at an offset in a shape, with the shapes
before them. -/
def Code.annotated : Code → Nat → Shape → List (Shape × Emission)
  | .nothing, _, _ => []
  | .plain emission, _, shape => [(shape, emission)]
  | .sequence first second, start, shape =>
      first.annotated start shape ++
        second.annotated (start + first.size)
          (shape.raised (first.heightAfter shape.height))
  | .branch condition consequence alternative, start, shape =>
      let decided := condition.heightAfter shape.height
      let chosen := start + condition.size + 3
      condition.annotated start shape ++
        (shape.raised decided,
          ⟨.jumpIfFalse, Instruction.shortBytes (consequence.size + 3)⟩) ::
        (consequence.annotated chosen (shape.raised (decided - 1)) ++
          (shape.raised (consequence.heightAfter (decided - 1)),
            ⟨.jump, Instruction.shortBytes alternative.size⟩) ::
          alternative.annotated (chosen + consequence.size + 3)
            (shape.raised (decided - 1)))
  | .loop condition body, start, shape =>
      condition.annotated start shape ++
        (shape.raised (shape.height + 1),
          ⟨.jumpIfFalse, Instruction.shortBytes (body.size + 3)⟩) ::
        (body.annotated (start + condition.size + 3) shape ++
          [(shape,
            ⟨.loop, Instruction.shortBytes
              (condition.size + 3 + body.size + 3)⟩)])
  | .attempt clauses body, start, shape =>
      let guarded := shape.registered (body.size + 2) start clauses
      annotateClauses (body.size + 2) start shape clauses ++
        (body.annotated (start + 6 * clauses.length) guarded ++
          [(guarded.raised 1, ⟨.popHandlers, [UInt8.ofNat clauses.length]⟩)])

theorem map_annotateClauses
    (rest start : Nat) (shape : Shape)
    (clauses : List (UInt8 × UInt8)) :
    (annotateClauses rest start shape clauses).map (·.2) =
      Code.registrations rest clauses := by
  induction clauses generalizing start shape with
  | nil => rfl
  | cons clause clauses inner =>
      simp [annotateClauses, Code.registrations, inner]

/-- Annotations are about the emissions of the code. -/
@[simp]
theorem Code.map_annotated (code : Code) (start : Nat) (shape : Shape) :
    (code.annotated start shape).map (·.2) = code.emissions := by
  induction code generalizing start shape with
  | nothing => rfl
  | plain emission => rfl
  | sequence first second firstMap secondMap =>
      simp [annotated, emissions, firstMap, secondMap]
  | branch condition consequence alternative conditionMap consequenceMap
        alternativeMap =>
      simp [annotated, emissions, conditionMap, consequenceMap, alternativeMap]
  | loop condition body conditionMap bodyMap =>
      simp [annotated, emissions, conditionMap, bodyMap]
  | attempt clauses body bodyMap =>
      simp [annotated, emissions, bodyMap, map_annotateClauses]

/-- An emission stands at an offset with a shape, among annotated emissions from
`start` on. -/
def Located : List (Shape × Emission) → Nat → Nat → Shape → Emission → Prop
  | [], _, _, _, _ => False
  | (known, placed) :: rest, start, offset, shape, emission =>
      (offset = start ∧ shape = known ∧ emission = placed) ∨
        Located rest (start + placed.size) offset shape emission

namespace Located

variable {annotations others : List (Shape × Emission)} {start offset : Nat}
    {shape other : Shape} {emission another : Emission}

@[simp]
theorem nil_iff : ¬ Located [] start offset shape emission :=
  id

theorem cons_iff {known : Shape} {placed : Emission} :
    Located ((known, placed) :: annotations) start offset shape emission ↔
      (offset = start ∧ shape = known ∧ emission = placed) ∨
        Located annotations (start + placed.size) offset shape emission :=
  Iff.rfl

theorem append_iff :
    Located (annotations ++ others) start offset shape emission ↔
      Located annotations start offset shape emission ∨
        Located others (start + totalSize (annotations.map (·.2))) offset shape
          emission := by
  induction annotations generalizing start with
  | nil => simp
  | cons entry rest inner =>
      obtain ⟨known, placed⟩ := entry
      simp only [List.cons_append, cons_iff, inner, List.map_cons,
        totalSize_cons, or_assoc, Nat.add_assoc]

theorem bounds (located : Located annotations start offset shape emission) :
    start ≤ offset ∧ offset + emission.size ≤ start + totalSize
      (annotations.map (·.2)) := by
  induction annotations generalizing start with
  | nil => exact located.elim
  | cons entry rest inner =>
      simp only [List.map_cons, totalSize_cons]
      rcases cons_iff.1 located with ⟨rfl, rfl, rfl⟩ | later
      · omega
      · obtain ⟨low, high⟩ := inner later
        omega

/-- At one offset there is one emission with one shape. -/
theorem unique
    (located : Located annotations start offset shape emission)
    (again : Located annotations start offset other another) :
    shape = other ∧ emission = another := by
  induction annotations generalizing start with
  | nil => exact located.elim
  | cons entry rest inner =>
      obtain ⟨known, placed⟩ := entry
      have positive := placed.size_pos
      rcases cons_iff.1 located with ⟨rfl, rfl, rfl⟩ | later <;>
        rcases cons_iff.1 again with ⟨same, rfl, rfl⟩ | laterAgain
      · exact ⟨rfl, rfl⟩
      · have := laterAgain.bounds
        omega
      · have := later.bounds
        omega
      · exact inner later laterAgain

/-- Where an emission is located it stands in the code. -/
theorem split (located : Located annotations start offset shape emission) :
    ∃ before after, annotations.map (·.2) = before ++ emission :: after ∧
      offset = start + totalSize before := by
  induction annotations generalizing start with
  | nil => exact located.elim
  | cons entry rest inner =>
      rcases cons_iff.1 located with ⟨rfl, rfl, rfl⟩ | later
      · exact ⟨[], rest.map (·.2), rfl, rfl⟩
      · obtain ⟨before, after, parts, place⟩ := inner later
        refine ⟨entry.2 :: before, after, ?_, ?_⟩
        · simp [parts]
        · simp only [totalSize_cons]
          omega

theorem of_mem (member : (shape, emission) ∈ annotations) :
    ∃ offset, Located annotations start offset shape emission := by
  induction annotations generalizing start with
  | nil => cases member
  | cons entry rest inner =>
      rcases List.mem_cons.1 member with rfl | later
      · exact ⟨start, .inl ⟨rfl, rfl, rfl⟩⟩
      · obtain ⟨offset, located⟩ := @inner (start + entry.2.size) later
        exact ⟨offset, .inr located⟩

theorem of_mem_placed {heap : List UInt8}
    {instruction : Instruction}
    (member : instruction ∈ placed heap start (annotations.map (·.2))) :
    ∃ shape emission, Located annotations start instruction.offset
        shape emission ∧
      instruction = emission.placedAt heap instruction.offset := by
  induction annotations generalizing start with
  | nil => cases member
  | cons entry rest inner =>
      rcases List.mem_cons.1 member with rfl | later
      · exact ⟨_, _, .inl ⟨rfl, rfl, rfl⟩, rfl⟩
      · obtain ⟨shape, emission, located, instructionEq⟩ := inner later
        exact ⟨shape, emission, .inr located, instructionEq⟩

end Located

/-! ### Constructs -/

namespace Code

variable {start offset : Nat} {shape known : Shape} {emission : Emission}

/-- Where an emission of a sequence stands. -/
theorem located_sequence {first second : Code} :
    Located ((sequence first second).annotated start shape) start offset
        known emission ↔
      Located (first.annotated start shape) start offset known emission ∨
      Located
        (second.annotated (start + first.size)
          (shape.raised (first.heightAfter shape.height)))
        (start + first.size) offset known emission := by
  simp only [annotated, Located.append_iff, map_annotated, totalSize_emissions]

/-- Where an emission of a choice stands. -/
theorem located_branch {condition consequence alternative : Code} :
    Located ((branch condition consequence alternative).annotated start shape)
      start offset known
        emission ↔
      Located (condition.annotated start shape) start offset known emission ∨
      (offset = start + condition.size ∧
        known = shape.raised (condition.heightAfter shape.height) ∧
        emission = ⟨.jumpIfFalse,
          Instruction.shortBytes (consequence.size + 3)⟩) ∨
      Located (consequence.annotated (start + condition.size + 3)
        (shape.raised (condition.heightAfter shape.height - 1)))
        (start + condition.size + 3) offset known emission ∨
      (offset = start + condition.size + 3 + consequence.size ∧
        known = shape.raised
          (consequence.heightAfter (condition.heightAfter shape.height - 1)) ∧
        emission = ⟨.jump, Instruction.shortBytes alternative.size⟩) ∨
      Located
        (alternative.annotated
          (start + condition.size + 3 + consequence.size + 3)
        (shape.raised (condition.heightAfter shape.height - 1)))
        (start + condition.size + 3 + consequence.size + 3) offset known
          emission := by
  simp only [annotated, Located.append_iff, Located.cons_iff, map_annotated,
    totalSize_emissions, Emission.size, Instruction.shortBytes,
    List.length_cons, List.length_nil]

/-- Where an emission of a repetition stands. -/
theorem located_loop {condition body : Code} :
    Located ((loop condition body).annotated start shape) start offset
        known emission ↔
      Located (condition.annotated start shape) start offset known emission ∨
      (offset = start + condition.size ∧
        known = shape.raised (shape.height + 1) ∧
        emission = ⟨.jumpIfFalse, Instruction.shortBytes (body.size + 3)⟩) ∨
      Located (body.annotated (start + condition.size + 3) shape)
        (start + condition.size + 3) offset known emission ∨
      (offset = start + condition.size + 3 + body.size ∧ known = shape ∧
        emission = ⟨.loop,
          Instruction.shortBytes (condition.size + 3 + body.size + 3)⟩) := by
  simp only [annotated, Located.append_iff, Located.cons_iff,
    Located.nil_iff, or_false, map_annotated, totalSize_emissions,
    Emission.size, Instruction.shortBytes, List.length_cons, List.length_nil]

/-- Where an emission of an attempt stands. -/
theorem located_attempt {clauses : List (UInt8 × UInt8)} {body : Code} :
    Located ((attempt clauses body).annotated start shape) start offset
        known emission ↔
      Located (annotateClauses (body.size + 2) start shape clauses) start offset
        known emission ∨
      Located (body.annotated (start + 6 * clauses.length)
        (shape.registered (body.size + 2) start clauses))
        (start + 6 * clauses.length) offset known emission ∨
      (offset = start + 6 * clauses.length + body.size ∧
        known = (shape.registered (body.size + 2) start clauses).raised 1 ∧
        emission = ⟨.popHandlers, [UInt8.ofNat clauses.length]⟩) := by
  simp only [annotated, Located.append_iff, Located.cons_iff,
    Located.nil_iff, or_false, map_annotated, map_annotateClauses,
    totalSize_registrations, totalSize_emissions]

end Code

/-! ## Control flow -/

/-- Where abandoning an attempt leads, the annotation is the shape in which it
leaves the frame: the attempt's handlers and all newer ones are gone, and one
value is above the floor. -/
def Lands (next : Nat → Shape → Prop) : List Registration → Prop
  | [] => True
  | registration :: older =>
      (∃ floor height, floor + height = registration.depth ∧
        next registration.target
          ⟨floor, height + 1, older.dropWhile fun other =>
            other.target = registration.target, none⟩) ∧
        Lands next older

/-- What an instruction at an offset does to a frame of a given shape. Wherever
it can send control, `next` has the shape that it leaves. -/
inductive Leads (next : Nat → Shape → Prop) (offset : Nat) (shape : Shape) :
    Emission → Prop
  | plain {emission : Emission} (plain : emission.isPlain)
      (enough : emission.pops ≤ shape.height)
      (onward : next (offset + emission.size)
        (shape.raised (shape.height - emission.pops + emission.pushes))) :
      Leads next offset shape emission
  | jump {distance : Nat} (small : distance ≤ 65535)
      (onward : next (offset + 3 + distance) shape) :
      Leads next offset shape ⟨.jump, Instruction.shortBytes distance⟩
  | jumpIfFalse {distance : Nat} (small : distance ≤ 65535)
      (decided : 0 < shape.height)
      (onward : next (offset + 3) (shape.raised (shape.height - 1)))
      (around : next (offset + 3 + distance)
        (shape.raised (shape.height - 1))) :
      Leads next offset shape ⟨.jumpIfFalse, Instruction.shortBytes distance⟩
  | loop {distance : Nat} (small : distance ≤ 65535)
      (inside : distance ≤ offset + 3)
      (back : next (offset + 3 - distance) shape) :
      Leads next offset shape ⟨.loop, Instruction.shortBytes distance⟩
  | making {function : UInt8}
      (onward : next (offset + 2) (shape.making function)) :
      Leads next offset shape ⟨.makeClosure, [function]⟩
  | registering {before : Shape} {function effect : UInt8} {distance : Nat}
      (small : distance ≤ 65535) (made : shape = before.making function)
      (onward : next (offset + 4)
        (before.register offset (offset + 4 + distance) function effect)) :
      Leads next offset shape
        ⟨.setHandler, effect :: Instruction.shortBytes distance⟩
  | closing {group rest : List Registration} {floor height : Nat}
      (small : group.length ≤ 255)
      (single : shape.height = 1) (level : floor + height = shape.floor)
      (split : shape.active = group ++ rest)
      (ends : ∀ registration ∈ group, registration.target = offset + 2)
      (onward : next (offset + 2) ⟨floor, height + 1, rest, none⟩) :
      Leads next offset shape ⟨.popHandlers, [UInt8.ofNat group.length]⟩

/-- Code is entered in a shape at an offset. The relation `next` has the
annotations of the code and the shape at its end. -/
structure Code.Enters
    (next : Nat → Shape → Prop)
    (code : Code) (start : Nat) (shape : Shape) : Prop where
  typed : code.Typed shape.height
  unmade : shape.made = none
  annotated {offset : Nat} {known : Shape} {emission : Emission} :
    Located (code.annotated start shape) start offset known emission →
    next offset known
  ending : next (start + code.size)
    (shape.raised (code.heightAfter shape.height))

/-- Registering handlers leaves no closure that is about to become one. -/
theorem Shape.registered_made {rest start : Nat}
    {shape : Shape} {clauses : List (UInt8 × UInt8)}
    (unmade : shape.made = none) :
    (shape.registered rest start clauses).made = none := by
  induction clauses generalizing start shape with
  | nil => exact unmade
  | cons clause others inner => exact inner rfl

/-- The handlers of an attempt are registered one by one; each of them leads to
the end of the attempt. -/
theorem Shape.registered_eq
    (rest start : Nat) (shape : Shape)
    {clauses : List (UInt8 × UInt8)}
    (some : clauses ≠ []) :
    ∃ group, shape.registered rest start clauses =
        ⟨shape.depth, 0, group ++ shape.active, none⟩ ∧
      group.length = clauses.length ∧
      ∀ registration ∈ group,
        registration.target = start + 6 * clauses.length + rest ∧
        registration.depth = shape.depth := by
  induction clauses generalizing start shape with
  | nil => exact (some rfl).elim
  | cons clause others inner =>
      obtain ⟨function, effect⟩ := clause
      simp only [registered, List.length_cons]
      by_cases more : others = []
      · subst more
        refine ⟨[_], rfl, rfl, ?_⟩
        intro registration member
        cases List.mem_singleton.1 member
        exact ⟨by simp only [List.length_nil]; omega, rfl⟩
      · obtain ⟨group, shapeEq, count, all⟩ := inner (start + 6)
          (shape.register (start + 2) (start + 6 + (6 * others.length + rest))
            function effect) more
        refine ⟨group ++ [⟨effect, function, shape.depth,
          start + 6 + (6 * others.length + rest), start + 2⟩], ?_, by
            simp [count], ?_⟩
        · rw [shapeEq]
          simp [register, depth]
        · intro registration member
          rcases List.mem_append.1 member with newer | first
          · obtain ⟨target, level⟩ := all registration newer
            exact ⟨by omega, level⟩
          · cases List.mem_singleton.1 first
            exact ⟨by simp only; omega, rfl⟩

namespace Code.Enters

variable {next : Nat → Shape → Prop} {start : Nat} {shape : Shape}
    {first second condition consequence alternative body : Code}
    {clauses : List (UInt8 × UInt8)}

/-! ### Parts

A part of code is entered, too: what follows it is annotated, or it is the end
of the whole. -/

theorem sequence_second
    (enters : (sequence first second).Enters next start shape) :
    second.Enters next (start + first.size)
      (shape.raised (first.heightAfter shape.height)) where
  typed := enters.typed.2
  unmade := rfl
  annotated found := enters.annotated (located_sequence.2 (.inr found))
  ending := by simpa [size, heightAfter, Nat.add_assoc] using enters.ending

theorem sequence_first
    (enters : (sequence first second).Enters next start shape)
    (middle : next (start + first.size)
      (shape.raised (first.heightAfter shape.height))) :
    first.Enters next start shape where
  typed := enters.typed.1
  unmade := enters.unmade
  annotated found := enters.annotated (located_sequence.2 (.inl found))
  ending := middle

theorem branch_condition
    (enters : (branch condition consequence alternative).Enters
      next start shape) :
    condition.Enters next start shape where
  typed := enters.typed.1
  unmade := enters.unmade
  annotated found := enters.annotated (located_branch.2 (.inl found))
  ending := enters.annotated (located_branch.2 (.inr (.inl ⟨rfl, rfl, rfl⟩)))

theorem branch_consequence
    (enters : (branch condition consequence alternative).Enters
      next start shape) :
    consequence.Enters next (start + condition.size + 3)
      (shape.raised (condition.heightAfter shape.height - 1)) where
  typed := enters.typed.2.2.1
  unmade := rfl
  annotated found :=
    enters.annotated (located_branch.2 (.inr (.inr (.inl found))))
  ending := enters.annotated
    (located_branch.2 (.inr (.inr (.inr (.inl ⟨rfl, rfl, rfl⟩)))))

theorem branch_alternative
    (enters : (branch condition consequence alternative).Enters
      next start shape) :
    alternative.Enters next (start + condition.size + 3 + consequence.size + 3)
      (shape.raised (condition.heightAfter shape.height - 1)) where
  typed := enters.typed.2.2.2.1
  unmade := rfl
  annotated found :=
    enters.annotated (located_branch.2 (.inr (.inr (.inr (.inr found)))))
  ending := by
    have ending := enters.ending
    simpa [size, heightAfter, Nat.add_assoc, enters.typed.2.2.2.2] using ending

theorem loop_condition
    (enters : (loop condition body).Enters next start shape) :
    condition.Enters next start shape where
  typed := enters.typed.1
  unmade := enters.unmade
  annotated found := enters.annotated (located_loop.2 (.inl found))
  ending := by
    rw [enters.typed.2.1]
    exact enters.annotated (located_loop.2 (.inr (.inl ⟨rfl, rfl, rfl⟩)))

theorem loop_body (enters : (loop condition body).Enters next start shape) :
    body.Enters next (start + condition.size + 3) shape where
  typed := enters.typed.2.2.1
  unmade := enters.unmade
  annotated found :=
    enters.annotated (located_loop.2 (.inr (.inr (.inl found))))
  ending := by
    rw [enters.typed.2.2.2, Shape.raised_self enters.unmade]
    exact enters.annotated (located_loop.2 (.inr (.inr (.inr ⟨rfl, rfl, rfl⟩))))

theorem attempt_body (enters : (attempt clauses body).Enters next start shape) :
    body.Enters next (start + 6 * clauses.length)
      (shape.registered (body.size + 2) start clauses) := by
  obtain ⟨some, typed, single⟩ := enters.typed
  obtain ⟨group, guardedEq, _⟩ := shape.registered_eq (body.size + 2) start some
  have height : (shape.registered (body.size + 2) start clauses).height =
      0 := by rw [guardedEq]
  refine ⟨height ▸ typed, Shape.registered_made enters.unmade, fun found =>
    enters.annotated (located_attempt.2 (.inr (.inl found))), ?_⟩
  rw [height, single]
  exact enters.annotated (located_attempt.2 (.inr (.inr ⟨rfl, rfl, rfl⟩)))

/-- Where code begins, `next` has the shape in which it is entered. -/
theorem begins {code : Code} (enters : code.Enters next start shape) :
    next start shape := by
  induction code generalizing start shape with
  | nothing => simpa [size, heightAfter, Shape.raised_self enters.unmade]
      using enters.ending
  | plain emission =>
      exact enters.annotated (Located.cons_iff.2 (.inl ⟨rfl, rfl, rfl⟩))
  | sequence first second firstBegins secondBegins =>
      exact firstBegins
        (enters.sequence_first (secondBegins enters.sequence_second))
  | branch condition consequence alternative conditionBegins =>
      exact conditionBegins enters.branch_condition
  | loop condition body conditionBegins =>
      exact conditionBegins enters.loop_condition
  | attempt clauses body =>
      cases clauses with
      | nil => exact (enters.typed.1 rfl).elim
      | cons clause others =>
          exact enters.annotated
            (located_attempt.2
              (.inl (Located.cons_iff.2 (.inl ⟨rfl, rfl, rfl⟩))))

end Code.Enters

/-- The registrations of clauses are consistent with control flow. -/
theorem leads_annotateClauses {next : Nat → Shape → Prop}
    {rest stop : Nat}
    (start : Nat) (shape : Shape)
    (clauses : List (UInt8 × UInt8))
    (place : start + 6 * clauses.length + rest = stop)
    (small : clauses ≠ [] → 6 * (clauses.length - 1) + rest ≤ 65535)
    (annotated : ∀ {offset known emission},
      Located (annotateClauses rest start shape clauses) start offset known
        emission → next offset known)
    (ending : next (start + 6 * clauses.length)
      (shape.registered rest start clauses))
    (lands : Lands next shape.active)
    (landing : ∃ floor height, floor + height = shape.depth ∧
      next stop ⟨floor, height + 1, shape.active.dropWhile fun other =>
        other.target = stop, none⟩) :
    Lands next (shape.registered rest start clauses).active ∧
      ∀ {offset known emission},
        Located (annotateClauses rest start shape clauses) start offset
            known emission →
          Leads next offset known emission ∧ Lands next known.active ∧
          emission.Complete := by
  induction clauses generalizing start shape with
  | nil => exact ⟨lands, fun located => located.elim⟩
  | cons clause others inner =>
      obtain ⟨function, effect⟩ := clause
      simp only [List.length_cons] at place small ending
      have stopEq : start + 6 + (6 * others.length + rest) = stop := by omega
      simp only [Shape.registered, annotateClauses, Located.cons_iff,
        Emission.size, stopEq, Instruction.shortBytes, List.length_cons,
        List.length_nil] at annotated ending ⊢
      have afterwards : next (start + 6)
          (shape.register (start + 2) stop function effect) := by
        cases others with
        | nil => simpa [Shape.registered] using ending
        | cons another others =>
            obtain ⟨otherFunction, otherEffect⟩ := another
            exact annotated (.inr (.inr (.inl ⟨rfl, rfl, rfl⟩)))
      have registeredLands :
          Lands next (shape.register (start + 2) stop function effect).active :=
        ⟨landing, lands⟩
      obtain ⟨endLands, restLeads⟩ := inner (start + 6)
        (shape.register (start + 2) stop function effect) (by omega)
        (fun _ => by have := small (by simp); omega)
        (fun located => annotated (.inr (.inr located)))
        (by rw [show start + 6 + 6 * others.length = start +
          6 * (others.length + 1) by omega]
            exact ending)
        registeredLands
        (by simpa [Shape.register, Shape.depth] using landing)
      refine ⟨endLands, ?_⟩
      rintro offset known emission (⟨rfl, rfl, rfl⟩ | ⟨rfl, rfl, rfl⟩ | later)
      · exact ⟨.making (annotated (.inr (.inl ⟨rfl, rfl, rfl⟩))), lands, rfl⟩
      · refine ⟨.registering (small (by simp)) (rfl : shape.making function = _)
          ?_, lands, rfl⟩
        rw [show start + 2 + 4 = start + 6 by omega, stopEq]
        exact afterwards
      · exact restLeads later

/-- Handlers that end behind code end behind each part of it. -/
theorem Shape.outside_of_le {shape : Shape}
    {stop inner : Nat}
    (outside : ∀ registration ∈ shape.active, stop < registration.target)
    (part : inner ≤ stop) :
    ∀ registration ∈ shape.active, inner < registration.target := by
  intro registration member
  exact Nat.lt_of_le_of_lt part (outside registration member)

namespace Code

variable {next : Nat → Shape → Prop} {start : Nat} {shape : Shape}
    {clauses : List (UInt8 × UInt8)} {body : Code}

/-- The registrations of an attempt lead to its body, and the handlers to its
end. -/
theorem Enters.clauses_lead
    (enters : (attempt clauses body).Enters next start shape)
    (small : clauses ≠ [] → 6 * (clauses.length - 1) + (body.size + 2) ≤ 65535)
    (lands : Lands next shape.active)
    (outside : ∀ registration ∈ shape.active,
      start + (attempt clauses body).size < registration.target) :
    Lands next (shape.registered (body.size + 2) start clauses).active ∧
      ∀ {offset known emission},
        Located (annotateClauses (body.size + 2) start shape clauses) start
            offset known emission →
          Leads next offset known emission ∧ Lands next known.active ∧
          emission.Complete := by
  have stopEq : start + (attempt clauses body).size = start +
      6 * clauses.length + (body.size + 2) := by
    simp only [size]
    omega
  -- Handlers of outer attempts end later, so none of them goes with this
  -- attempt.
  have kept : (shape.active.dropWhile fun other =>
      other.target = start + 6 * clauses.length + (body.size + 2)) =
        shape.active := by
    cases activeEq : shape.active with
    | nil => rfl
    | cons newest older =>
        have := outside newest (by simp [activeEq])
        rw [List.dropWhile_cons_of_neg (by simp; omega)]
  refine leads_annotateClauses start shape clauses rfl small
    (fun found => enters.annotated (located_attempt.2 (.inl found)))
    enters.attempt_body.begins lands ⟨shape.floor, shape.height, rfl, ?_⟩
  rw [kept, ← stopEq]
  exact enters.ending

/-- The end of an attempt removes its handlers and leads behind it. -/
theorem Enters.closes
    (enters : (attempt clauses body).Enters next start shape)
    (few : clauses.length ≤ 255) :
    Leads next (start + 6 * clauses.length + body.size)
      ((shape.registered (body.size + 2) start clauses).raised 1)
      ⟨.popHandlers, [UInt8.ofNat clauses.length]⟩ := by
  obtain ⟨group, guardedEq, count, groupFacts⟩ :=
    shape.registered_eq (body.size + 2) start enters.typed.1
  have stopEq : start + 6 * clauses.length + body.size + 2 =
      start + (attempt clauses body).size := by
    simp only [size]
    omega
  rw [← count] at few stopEq ⊢
  refine @Leads.closing _ _ _ group shape.active shape.floor shape.height few
    rfl ?_ ?_ ?_ ?_
  · rw [guardedEq]
    rfl
  · rw [guardedEq]
    rfl
  · intro registration member
    have := (groupFacts registration member).1
    omega
  · rw [stopEq]
    exact enters.ending

/-- Every instruction of typed code leads where the annotations say. -/
theorem leads
    (code : Code)
    {start : Nat} {shape : Shape}
    (enters : code.Enters next start shape)
    (fits : code.Fits)
    (lands : Lands next shape.active)
    (outside : ∀ registration ∈ shape.active,
      start + code.size < registration.target)
    {offset : Nat} {known : Shape} {emission : Emission}
    (located : Located (code.annotated start shape) start offset
      known emission) :
    Leads next offset known emission ∧ Lands next known.active ∧
    emission.Complete := by
  induction code generalizing start shape with
  | nothing => exact located.elim
  | plain placed =>
      obtain ⟨plain, complete, enough⟩ := enters.typed
      rcases Located.cons_iff.1 located with ⟨rfl, rfl, rfl⟩ | never
      · exact ⟨.plain plain enough enters.ending, lands, complete⟩
      · exact never.elim
  | sequence first second firstLeads secondLeads =>
      simp only [size] at outside
      rcases located_sequence.1 located with early | late
      · exact firstLeads (enters.sequence_first enters.sequence_second.begins)
          fits.1 lands (Shape.outside_of_le outside (by omega)) early
      · exact secondLeads enters.sequence_second fits.2 lands
          (Shape.outside_of_le outside (by omega)) late
  | branch condition consequence alternative conditionLeads consequenceLeads
        alternativeLeads =>
      obtain ⟨conditionFits, consequenceFits, alternativeFits, smallBoth,
        smallAlternative⟩ := fits
      simp only [size] at outside
      rcases located_branch.1 located
        with inCondition | ⟨rfl, rfl, rfl⟩ | inConsequence |
        ⟨rfl, rfl, rfl⟩ | inAlternative
      · exact conditionLeads enters.branch_condition conditionFits lands
          (Shape.outside_of_le outside (by omega)) inCondition
      · refine ⟨.jumpIfFalse smallBoth enters.typed.2.1
          enters.branch_consequence.begins ?_, lands, rfl⟩
        exact enters.branch_alternative.begins
      · exact consequenceLeads enters.branch_consequence consequenceFits lands
          (Shape.outside_of_le outside (by omega)) inConsequence
      · refine ⟨.jump smallAlternative ?_, lands, rfl⟩
        simpa [size, heightAfter, Nat.add_assoc] using enters.ending
      · exact alternativeLeads enters.branch_alternative alternativeFits lands
          (Shape.outside_of_le outside (by omega)) inAlternative
  | loop condition body conditionLeads bodyLeads =>
      obtain ⟨conditionFits, bodyFits, small⟩ := fits
      simp only [size] at outside
      rcases located_loop.1 located
        with inCondition | ⟨rfl, rfl, rfl⟩ | inBody | ⟨rfl, rfl, rfl⟩
      · exact conditionLeads enters.loop_condition conditionFits lands
          (Shape.outside_of_le outside (by omega)) inCondition
      · have popped : (shape.raised (shape.height + 1)).raised
            (shape.height + 1 - 1) = shape :=
          Shape.raised_self enters.unmade
        refine ⟨.jumpIfFalse (by omega) (Nat.succ_pos _) ?_ ?_, lands, rfl⟩
        · rw [Shape.raised_height, popped]
          exact enters.loop_body.begins
        · rw [Shape.raised_height, popped]
          simpa [size, heightAfter, Nat.add_assoc,
            Shape.raised_self enters.unmade] using enters.ending
      · exact bodyLeads enters.loop_body bodyFits lands
          (Shape.outside_of_le outside (by omega)) inBody
      · refine ⟨.loop small (by omega) ?_, lands, rfl⟩
        rw [show start + condition.size + 3 + body.size + 3 -
          (condition.size + 3 + body.size + 3) = start by omega]
        exact enters.loop_condition.begins
  | attempt clauses body bodyLeads =>
      obtain ⟨bodyFits, few, small⟩ := fits
      obtain ⟨group, guardedEq, _, groupFacts⟩ :=
        shape.registered_eq (body.size + 2) start enters.typed.1
      obtain ⟨guardedLands, clausesLead⟩ := enters.clauses_lead
        (fun nonempty => by have := small nonempty; omega) lands outside
      simp only [size] at outside
      rcases located_attempt.1 located with inClauses | inBody | ⟨rfl, rfl, rfl⟩
      · exact clausesLead inClauses
      · refine bodyLeads enters.attempt_body bodyFits guardedLands ?_ inBody
        intro registration member
        rw [guardedEq] at member
        rcases List.mem_append.1 member with own | outer
        · have := (groupFacts registration own).1
          omega
        · have := outside registration outer
          omega
      · exact ⟨enters.closes (by omega), guardedLands, rfl⟩

end Code

/-! ## Nesting -/

/-- How the handlers known at an offset inside code relate to those known where
it was entered: the additional ones belong to attempts inside the code around
the offset, the inner ones first. -/
structure Nested
    (placed : Nat → Emission → Prop)
    (start stop offset : Nat) (outer known : Shape)
    (inner : List Registration) : Prop where
  active : known.active = inner ++ outer.active
  floor : outer.floor ≤ known.floor
  sorted : inner.Pairwise fun newer older => newer.target ≤ older.target
  after : ∀ registration ∈ inner, start ≤ registration.site ∧
    registration.site < offset
  before : ∀ registration ∈ inner, offset < registration.target ∧
    registration.target ≤ stop
  depth : ∀ registration ∈ inner, registration.depth ≤ known.floor
  placed : ∀ registration ∈ inner, ∃ distance, distance ≤ 65535 ∧
    placed registration.site
      ⟨.setHandler, registration.effect :: Instruction.shortBytes distance⟩ ∧
    registration.target = registration.site + 4 + distance

namespace Nested

variable {placed more : Nat → Emission → Prop} {start stop offset : Nat}
    {outer known : Shape} {inner : List Registration}

/-- Outside of all attempts of the code nothing is added. -/
theorem none
    (same : known.active = outer.active)
    (floor : outer.floor ≤ known.floor) :
    Nested placed start stop offset outer known [] where
  active := same
  floor := floor
  sorted := .nil
  after := by simp
  before := by simp
  depth := by simp
  placed := by simp

/-- The handlers of a part of code come on top of those known where the part was
entered. -/
theorem compose {middle : Shape} {older : List Registration}
    {lower upper reached : Nat}
    (newest : Nested placed start stop offset middle known inner)
    (nested : Nested more lower upper reached outer middle older)
    (low : lower ≤ start) (high : stop ≤ upper)
    (onward : reached ≤ offset)
    (around : ∀ registration ∈ older, offset < registration.target ∧
      stop ≤ registration.target)
    (included : ∀ site emission, placed site emission → more site emission) :
    Nested more lower upper offset outer known (inner ++ older) := by
  have each {motive : Registration → Prop}
      (new : ∀ registration ∈ inner, motive registration)
      (old : ∀ registration ∈ older, motive registration) :
      ∀ registration ∈ inner ++ older, motive registration := by
    intro registration member
    rcases List.mem_append.1 member with member | member
    · exact new registration member
    · exact old registration member
  constructor
  · rw [newest.active, nested.active, List.append_assoc]
  · exact Nat.le_trans nested.floor newest.floor
  · refine List.pairwise_append.2 ⟨newest.sorted, nested.sorted, ?_⟩
    intro registration new other old
    exact Nat.le_trans (newest.before registration new).2 (around other old).2
  · refine each (fun registration member => ?_) (fun registration member => ?_)
    · have := newest.after registration member
      omega
    · have := nested.after registration member
      omega
  · refine each (fun registration member => ?_) (fun registration member => ?_)
    · have := newest.before registration member
      omega
    · exact ⟨(around registration member).1,
        (nested.before registration member).2⟩
  · exact each newest.depth fun registration member =>
      Nat.le_trans (nested.depth registration member) newest.floor
  · refine each (fun registration member => ?_) nested.placed
    obtain ⟨distance, small, there, target⟩ := newest.placed registration member
    exact ⟨distance, small, included _ _ there, target⟩

/-- A part of code that is entered with the same handlers is nested in the
whole. -/
theorem widen {middle : Shape}
    (nested : Nested placed start stop offset middle known inner)
    (outer : Shape)
    (entered : middle.active = outer.active ∧ middle.floor = outer.floor)
    {lower upper : Nat}
    (low : lower ≤ start) (high : stop ≤ upper)
    (included : ∀ site emission, placed site emission → more site emission) :
    Nested more lower upper offset outer known inner := by
  have outside : Nested more lower upper offset outer middle [] :=
    .none entered.1 (Nat.le_of_eq entered.2.symm)
  simpa using nested.compose outside low high (Nat.le_refl _) (by simp) included

end Nested

/-- The handlers known between the registrations of clauses, and behind all of
them. -/
theorem nested_annotateClauses {rest : Nat}
    (start : Nat) (shape : Shape)
    (clauses : List (UInt8 × UInt8))
    (small : clauses ≠ [] → 6 * (clauses.length - 1) + rest ≤ 65535)
    (positive : 0 < rest)
    {offset : Nat} {known : Shape}
    (reached :
      (∃ emission, Located (annotateClauses rest start shape clauses) start
        offset known emission) ∨ offset = start + 6 * clauses.length ∧
        known = shape.registered rest start clauses) :
    ∃ inner, Nested
      (fun site emission => ∃ before,
        Located (annotateClauses rest start shape clauses) start site
          before emission)
      start (start + 6 * clauses.length + rest) offset shape known inner := by
  induction clauses generalizing start shape with
  | nil =>
      rcases reached with ⟨_, never⟩ | ⟨_, rfl⟩
      · exact never.elim
      · exact ⟨[], .none rfl (Nat.le_refl _)⟩
  | cons clause others inner =>
      obtain ⟨function, effect⟩ := clause
      have room := small (by simp)
      simp only [List.length_cons] at room reached ⊢
      let stop := start + 6 + (6 * others.length + rest)
      let after := shape.register (start + 2) stop function effect
      have stopEq : start + 6 * (others.length + 1) + rest = stop := by
        simp only [stop]
        omega
      have first : Nested
          (fun site emission => ∃ before,
            Located (annotateClauses rest start shape
            ((function, effect) :: others)) start site before emission)
          start stop (start + 6) shape after
            [⟨effect, function, shape.depth, stop, start + 2⟩] := by
        constructor
        · rfl
        · exact Nat.le_add_right _ _
        · simp
        · simp
        · simp only [List.mem_singleton, forall_eq]
          omega
        · simp only [List.mem_singleton, forall_eq]
          exact Nat.le_refl _
        · simp only [List.mem_singleton, forall_eq]
          exact ⟨6 * others.length + rest, by
            omega, ⟨_, .inr (.inl ⟨rfl, rfl, rfl⟩)⟩, by omega⟩
      -- Behind the first registration, the handlers of the others come on top
      -- of it.
      have behind (reachedOthers : (∃ emission,
            Located (annotateClauses rest (start + 6) after others)
              (start + 6) offset known emission) ∨
          offset = start + 6 + 6 * others.length ∧
            known = Shape.registered rest (start + 6) after others)
          (low : start + 6 ≤ offset)
            (high : offset ≤ start + 6 + 6 * others.length) :
          ∃ inner, Nested
            (fun site emission => ∃ before,
              Located (annotateClauses rest start shape
              ((function, effect) :: others)) start site before emission)
            start stop offset shape known inner := by
        obtain ⟨newer, nested⟩ :=
          inner (start + 6) after (fun _ => by omega) reachedOthers
        refine ⟨_, nested.compose first (by omega) (by omega) low ?_
          fun _ _ => Exists.imp fun _ found => .inr (.inr found)⟩
        simp only [List.mem_singleton, forall_eq]
        omega
      rw [stopEq]
      rcases reached with ⟨emission, located⟩ | ⟨rfl, rfl⟩
      · rcases Located.cons_iff.1 located with ⟨rfl, rfl, rfl⟩ | located
        · exact ⟨[], .none rfl (Nat.le_refl _)⟩
        rcases Located.cons_iff.1 located with ⟨rfl, rfl, rfl⟩ | inOthers
        · exact ⟨[], .none rfl (Nat.le_refl _)⟩
        · have place : start + 6 ≤ offset ∧ _ := inOthers.bounds
          simp only [map_annotateClauses, Code.totalSize_registrations,
            Emission.size, Instruction.shortBytes, List.length_cons,
            List.length_nil] at place
          exact behind (.inl ⟨emission, inOthers⟩) place.1 (by omega)
      · exact behind (.inr ⟨by omega, rfl⟩) (by omega) (by omega)

namespace Code

/-- The emission stands somewhere in code that is entered in a shape at an
offset. -/
def Stands
    (code : Code) (start : Nat) (shape : Shape) (site : Nat)
    (emission : Emission) : Prop :=
  ∃ before, Located (code.annotated start shape) start site before emission

variable {start offset : Nat} {shape known : Shape}
    {clauses : List (UInt8 × UInt8)} {body : Code}

/-- What is nested in a part of code is nested in the whole, if no handler is
registered before the part. -/
theorem nested_of_part {part whole : Code} {inside : Nat}
    {entered : Shape}
    (nested : ∃ inner, Nested (part.Stands inside entered) inside
      (inside + part.size) offset entered known inner)
    (included : ∀ {site before emission},
      Located (part.annotated inside entered) inside site before emission →
      Located (whole.annotated start shape) start site before emission)
    (same : entered.active = shape.active ∧ entered.floor = shape.floor)
    (low : start ≤ inside)
    (high : inside + part.size ≤ start + whole.size) :
    ∃ inner, Nested (whole.Stands start shape) start (start + whole.size) offset
      shape known inner := by
  obtain ⟨inner, nested⟩ := nested
  exact ⟨inner, nested.widen shape same low high fun _ _ => Exists.imp
    fun _ => included⟩

/-- Nothing is added at an emission that leads from one part to another. -/
theorem nested_between {whole : Code} {height : Nat} :
    ∃ inner, Nested (whole.Stands start shape) start (start + whole.size)
      offset shape (shape.raised height) inner :=
  ⟨[], .none rfl (Nat.le_refl _)⟩

/-- Between and behind its registrations, an attempt has added handlers that
lead to its end. -/
theorem attempt_nested
    (small : clauses ≠ [] → 6 * (clauses.length - 1) + body.size + 2 ≤ 65535)
    (reached :
      (∃ emission, Located (annotateClauses (body.size + 2) start shape clauses)
        start offset known emission) ∨ offset = start + 6 * clauses.length ∧
        known = shape.registered (body.size + 2) start clauses) :
    ∃ inner, Nested ((attempt clauses body).Stands start shape) start
      (start + (attempt clauses body).size) offset shape known inner := by
  obtain ⟨inner, nested⟩ := nested_annotateClauses start shape clauses
    (fun nonempty => by have := small nonempty; omega) (by omega) reached
  refine ⟨inner, nested.widen shape ⟨rfl, rfl⟩ (Nat.le_refl start) ?_ ?_⟩
  · simp only [size]
    omega
  · exact fun _ _ => Exists.imp fun _ found => located_attempt.2 (.inl found)

/-- What is nested in the body of an attempt comes on top of the handlers of the
attempt. -/
theorem nested_of_guarded
    (some : clauses ≠ [])
    (small : clauses ≠ [] → 6 * (clauses.length - 1) + body.size + 2 ≤ 65535)
    {placed : Nat → Emission → Prop} {inside : Nat} {inner : List Registration}
    (nested : Nested placed (start + 6 * clauses.length) inside offset
      (shape.registered (body.size + 2) start clauses) known inner)
    (low : start + 6 * clauses.length ≤ offset)
    (high : offset ≤ start + 6 * clauses.length + body.size)
    (part : inside ≤ start + 6 * clauses.length + body.size)
    (included : ∀ site emission, placed site emission →
      (attempt clauses body).Stands start shape site emission) :
    ∃ inner, Nested ((attempt clauses body).Stands start shape) start
      (start + (attempt clauses body).size) offset shape known inner := by
  obtain ⟨registered, entered⟩ := attempt_nested small (.inr ⟨rfl, rfl⟩)
  obtain ⟨group, guardedEq, _, groupFacts⟩ :=
    shape.registered_eq (body.size + 2) start some
  have sizeEq : start + (attempt clauses body).size =
      start + 6 * clauses.length + (body.size + 2) := by
    simp only [size]
    omega
  refine ⟨_, nested.compose entered (by omega) (by omega) low ?_ included⟩
  intro registration member
  have same := entered.active
  rw [guardedEq] at same
  have := (groupFacts registration (List.append_cancel_right same ▸ member)).1
  omega

/-- The handlers known at an emission inside code. -/
theorem nested
    (code : Code)
    {start : Nat} {shape : Shape}
    (typed : code.Typed shape.height)
    (fits : code.Fits)
    {offset : Nat} {known : Shape} {emission : Emission}
    (located : Located (code.annotated start shape) start offset
      known emission) :
    ∃ inner, Nested (code.Stands start shape) start (start + code.size) offset
      shape known inner := by
  induction code generalizing start shape with
  | nothing => exact located.elim
  | plain placed =>
      rcases Located.cons_iff.1 located with ⟨rfl, rfl, rfl⟩ | never
      · exact ⟨[], .none rfl (Nat.le_refl _)⟩
      · exact never.elim
  | sequence first second firstNested secondNested =>
      rcases located_sequence.1 located with early | late
      · exact nested_of_part (firstNested typed.1 fits.1 early)
          (fun found => located_sequence.2 (.inl found)) ⟨rfl, rfl⟩ (by omega)
          (by simp only [size]; omega)
      · exact nested_of_part (secondNested typed.2 fits.2 late)
          (fun found => located_sequence.2 (.inr found)) ⟨rfl, rfl⟩ (by omega)
          (by simp only [size]; omega)
  | branch condition consequence alternative conditionNested consequenceNested
        alternativeNested =>
      rcases located_branch.1 located
        with inCondition | ⟨rfl, rfl, rfl⟩ | inConsequence |
        ⟨rfl, rfl, rfl⟩ | inAlternative
      · exact nested_of_part (conditionNested typed.1 fits.1 inCondition)
          (fun found => located_branch.2 (.inl found)) ⟨rfl, rfl⟩ (by omega)
          (by simp only [size]; omega)
      · exact nested_between
      · exact nested_of_part
          (consequenceNested typed.2.2.1 fits.2.1 inConsequence)
          (fun found => located_branch.2 (.inr (.inr (.inl found))))
          ⟨rfl, rfl⟩ (by omega) (by simp only [size]; omega)
      · exact nested_between
      · exact nested_of_part
          (alternativeNested typed.2.2.2.1 fits.2.2.1 inAlternative)
          (fun found => located_branch.2 (.inr (.inr (.inr (.inr found)))))
          ⟨rfl, rfl⟩ (by omega) (by simp only [size]; omega)
  | loop condition body conditionNested bodyNested =>
      rcases located_loop.1 located
        with inCondition | ⟨rfl, rfl, rfl⟩ | inBody | ⟨rfl, rfl, rfl⟩
      · exact nested_of_part (conditionNested typed.1 fits.1 inCondition)
          (fun found => located_loop.2 (.inl found)) ⟨rfl, rfl⟩ (by omega)
          (by simp only [size]; omega)
      · exact nested_between
      · exact nested_of_part (bodyNested typed.2.2.1 fits.2.1 inBody)
          (fun found => located_loop.2 (.inr (.inr (.inl found))))
          ⟨rfl, rfl⟩ (by omega) (by simp only [size]; omega)
      · exact ⟨[], .none rfl (Nat.le_refl _)⟩
  | attempt clauses body bodyNested =>
      obtain ⟨nonempty, bodyTyped, _⟩ := typed
      obtain ⟨bodyFits, _, small⟩ := fits
      obtain ⟨group, guardedEq, _⟩ :=
        shape.registered_eq (body.size + 2) start nonempty
      rcases located_attempt.1 located with inClauses | inBody | ⟨rfl, rfl, rfl⟩
      · exact attempt_nested small (.inl ⟨_, inClauses⟩)
      · obtain ⟨inner, inside⟩ :=
          bodyNested (by rw [guardedEq]; exact bodyTyped) bodyFits inBody
        have place := inBody.bounds
        simp only [map_annotated, totalSize_emissions] at place
        refine nested_of_guarded nonempty small inside place.1 (by omega)
          (Nat.le_refl _) ?_
        exact fun _ _ => Exists.imp fun _ found =>
          located_attempt.2 (.inr (.inl found))
      · have last : Nested (fun _ _ => False) (start + 6 * clauses.length)
            (start + 6 * clauses.length)
            (start + 6 * clauses.length + body.size)
            (shape.registered (body.size + 2) start clauses)
            ((shape.registered (body.size + 2) start clauses).raised 1) [] :=
          .none rfl (Nat.le_refl _)
        exact nested_of_guarded nonempty small last (by omega)
          (Nat.le_refl _) (by omega) fun _ _ never => never.elim

end Code

end EffectScript
