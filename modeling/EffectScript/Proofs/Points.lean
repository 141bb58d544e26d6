import EffectScript.Proofs.Template

/-!
# Points of a function

A *point* of a function is an offset at which one of its instructions begins,
with the shape that is known there. Sound templates keep what structured code
promises: decoding succeeds at every point, every instruction leads from point
to point, and the handlers known at a point belong to the attempts around it.
-/

namespace EffectScript

namespace Code

/-- The emission at a point of a function with the given body. -/
def At (code : Code) (offset : Nat) (shape : Shape) (emission : Emission) :
    Prop :=
  Located (Template.annotations code) 0 offset shape emission

/-- The offset is a point of a function with the given body. -/
def Known (code : Code) (offset : Nat) (shape : Shape) : Prop :=
  ∃ emission, code.At offset shape emission

variable {code : Code} {offset : Nat} {shape other : Shape}
    {emission another : Emission}

theorem At.unique
    (here : code.At offset shape emission)
    (again : code.At offset other another) :
    shape = other ∧ emission = another :=
  Located.unique here again

theorem Known.unique
    (known : code.Known offset shape)
    (again : code.Known offset other) :
    shape = other := by
  obtain ⟨emission, here⟩ := known
  obtain ⟨another, there⟩ := again
  exact (here.unique there).1

/-- A point is in the body or at the final return. -/
theorem at_iff :
    code.At offset shape emission ↔
      Located (code.annotated 0 .initial) 0 offset shape emission ∨
        offset = code.size ∧ shape = Shape.initial.raised 1 ∧
        emission = ⟨.return, []⟩ := by
  simp [At, Template.annotations, Located.append_iff, Located.cons_iff]

/-- Only the registrations of clauses come after the push of a handler's
closure. -/
theorem made_of_clause {pools : Pools} {rest start : Nat}
    {outer : Shape} {function : UInt8} {clauses : List (UInt8 × UInt8)}
    (unmade : outer.made = none)
    (functions : ∀ clause ∈ clauses, ∃ template,
      pools.IsFunction clause.1 template ∧ template.arity = 1)
    (located : Located (annotateClauses rest start outer clauses) start offset
      shape emission)
    (made : shape.made = some function) :
    (∃ template, pools.IsFunction function template ∧ template.arity = 1) ∧
      ∃ place before, offset = place + 2 ∧
        Located (annotateClauses rest start outer clauses) start place before
          ⟨.makeClosure, [function]⟩ := by
  induction clauses generalizing start outer with
  | nil => exact located.elim
  | cons clause others inner =>
      rcases Located.cons_iff.1 located with ⟨_, rfl, _⟩ | later
      · rw [unmade] at made
        cases made
      · rcases Located.cons_iff.1 later with ⟨placeEq, rfl, _⟩ | inOthers
        · cases made
          exact ⟨functions clause List.mem_cons_self, start, outer, placeEq,
            .inl ⟨rfl, rfl, rfl⟩⟩
        · obtain ⟨isFunction, place, before, next, found⟩ := inner rfl
            (fun other member =>
              functions other (List.mem_cons_of_mem _ member)) inOthers
          exact ⟨isFunction, place, before, next, .inr (.inr found)⟩

/-- What is known about a value that is about to become a handler: it is a
closure of a function of one argument, and the instruction before made it. -/
theorem made_of_located {pools : Pools} {start : Nat}
    {outer : Shape} {function : UInt8}
    (valid : code.Valid pools)
    (unmade : outer.made = none)
    (located : Located (code.annotated start outer) start offset shape emission)
    (made : shape.made = some function) :
    (∃ template, pools.IsFunction function template ∧ template.arity = 1) ∧
      ∃ place, offset = place + 2 ∧
        code.Stands start outer place ⟨.makeClosure, [function]⟩ := by
  induction code generalizing start outer with
  | nothing => exact located.elim
  | plain placed =>
      rcases Located.cons_iff.1 located with ⟨rfl, rfl, rfl⟩ | never
      · rw [unmade] at made
        cases made
      · exact never.elim
  | sequence first second firstMade secondMade =>
      rcases located_sequence.1 located with early | late
      · obtain ⟨isFunction, place, next, before, found⟩ :=
          firstMade valid.1 unmade early
        exact ⟨isFunction, place, next, before, located_sequence.2 (.inl found)⟩
      · obtain ⟨isFunction, place, next, before, found⟩ :=
          secondMade valid.2 rfl late
        exact ⟨isFunction, place, next, before, located_sequence.2 (.inr found)⟩
  | branch condition consequence alternative conditionMade consequenceMade
        alternativeMade =>
      rcases located_branch.1 located
        with inside | ⟨_, rfl, _⟩ | inside | ⟨_, rfl, _⟩ | inside
      · obtain ⟨isFunction, place, next, before, found⟩ :=
          conditionMade valid.1 unmade inside
        exact ⟨isFunction, place, next, before, located_branch.2 (.inl found)⟩
      · cases made
      · obtain ⟨isFunction, place, next, before, found⟩ :=
          consequenceMade valid.2.1 rfl inside
        exact ⟨isFunction, place, next, before,
          located_branch.2 (.inr (.inr (.inl found)))⟩
      · cases made
      · obtain ⟨isFunction, place, next, before, found⟩ :=
          alternativeMade valid.2.2 rfl inside
        exact ⟨isFunction, place, next, before,
          located_branch.2 (.inr (.inr (.inr (.inr found))))⟩
  | loop condition body conditionMade bodyMade =>
      rcases located_loop.1 located
        with inside | ⟨_, rfl, _⟩ | inside | ⟨_, rfl, _⟩
      · obtain ⟨isFunction, place, next, before, found⟩ :=
          conditionMade valid.1 unmade inside
        exact ⟨isFunction, place, next, before, located_loop.2 (.inl found)⟩
      · cases made
      · obtain ⟨isFunction, place, next, before, found⟩ :=
          bodyMade valid.2 unmade inside
        exact ⟨isFunction, place, next, before,
          located_loop.2 (.inr (.inr (.inl found)))⟩
      · rw [unmade] at made
        cases made
  | attempt clauses body bodyMade =>
      rcases located_attempt.1 located with inside | inside | ⟨_, rfl, _⟩
      · obtain ⟨isFunction, place, before, next, found⟩ :=
          made_of_clause unmade
            (fun clause member => (valid.1 clause member).2) inside made
        exact ⟨isFunction, place, next, before, located_attempt.2 (.inl found)⟩
      · obtain ⟨isFunction, place, next, before, found⟩ :=
          bodyMade valid.2 (Shape.registered_made unmade) inside
        exact ⟨isFunction, place, next, before,
          located_attempt.2 (.inr (.inl found))⟩
      · cases made

/-- How the handlers known at a point lie around it. -/
structure Encloses
    (code : Code) (offset : Nat) (shape : Shape)
    (registration : Registration) : Prop where
  after : registration.site < offset
  before : offset < registration.target
  depth : registration.depth ≤ shape.floor
  placed : ∃ before distance, distance ≤ 65535 ∧
    code.At registration.site before
      ⟨.setHandler, registration.effect :: Instruction.shortBytes distance⟩ ∧
    registration.target = registration.site + 4 + distance

end Code

namespace Template.LaidOut

variable {template : Template} {code : Code} {offset : Nat} {shape : Shape}
    {emission : Emission}

/-- The final return is at a point. -/
theorem finish (laidOut : template.LaidOut code) :
    code.Known (0 + code.size)
      (Shape.initial.raised (code.heightAfter Shape.initial.height)) := by
  rw [show Shape.initial.height = 0 from rfl, laidOut.single]
  exact ⟨⟨.return, []⟩, Code.at_iff.2 (.inr ⟨Nat.zero_add _, rfl, rfl⟩)⟩

/-- A function is entered at its points. -/
theorem enters (laidOut : template.LaidOut code) :
    code.Enters code.Known 0 .initial where
  typed := laidOut.typed
  unmade := rfl
  annotated located := ⟨_, Code.at_iff.2 (.inl located)⟩
  ending := laidOut.finish

/-- A function begins at a point. -/
theorem start (laidOut : template.LaidOut code) : code.Known 0 .initial :=
  laidOut.enters.begins

/-- What holds of the instruction at a point. -/
theorem follow
    (laidOut : template.LaidOut code)
    (here : code.At offset shape emission) :
    (Leads code.Known offset shape emission ∨
        emission = ⟨.return, []⟩ ∧ shape = Shape.initial.raised 1) ∧
      Lands code.Known shape.active ∧ emission.Complete ∧
      emission.Valid template.pools := by
  rcases Code.at_iff.1 here with inside | ⟨_, rfl, rfl⟩
  · have outermost : Lands code.Known Shape.initial.active := trivial
    obtain ⟨leads, lands, complete⟩ :=
      code.leads laidOut.enters laidOut.fits outermost
      (fun registration none => by cases none) inside
    obtain ⟨before, after, parts, _⟩ := inside.split
    rw [Code.map_annotated] at parts
    exact ⟨.inl leads, lands, complete,
      laidOut.valid.emission (by simp [parts])⟩
  · exact ⟨.inr ⟨rfl, rfl⟩, trivial, rfl, trivial⟩

/-- Decoding at a point finds the instruction that the emission there became. -/
theorem decode
    (laidOut : template.LaidOut code)
    (here : code.At offset shape emission) :
    Instruction.decode template.code offset =
      .ok (emission.placedAt template.heapSlots offset) := by
  obtain ⟨before, after, parts, place⟩ := Located.split here
  obtain ⟨_, _, complete, _⟩ := laidOut.follow here
  rw [Nat.zero_add] at place
  subst place
  have assembled := laidOut.bytes
  simp only [annotations, List.map_append, Code.map_annotated, List.map_cons,
    List.map_nil] at parts
  rw [parts] at assembled
  exact decode_assemble assembled complete

/-- Walking the code finds the instructions at all points, no others and no
fault. -/
theorem walk_eq (laidOut : template.LaidOut code) :
    Instruction.walk template.code =
      ⟨placed template.heapSlots 0 ((annotations code).map (·.2)), none⟩ := by
  have parts : code.emissions ++ [⟨.return, []⟩] =
      (annotations code).map (·.2) := by
    simp [annotations]
  have assembled := laidOut.bytes
  rw [parts] at assembled
  have complete : ∀ other ∈ (annotations code).map (·.2), other.Complete := by
    intro other member
    obtain ⟨⟨known, placed⟩, held, rfl⟩ := List.mem_map.1 member
    obtain ⟨place, located⟩ := @Located.of_mem _ 0 _ _ held
    exact (laidOut.follow located).2.2.1
  exact walk_assemble assembled complete

theorem walk (laidOut : template.LaidOut code) :
    (Instruction.walk template.code).instructions =
      placed template.heapSlots 0 ((annotations code).map (·.2)) := by
  rw [laidOut.walk_eq]

theorem mem_walk
    (laidOut : template.LaidOut code)
    (here : code.At offset shape emission) :
    emission.placedAt template.heapSlots offset ∈
      (Instruction.walk template.code).instructions := by
  obtain ⟨before, after, split, place⟩ := Located.split here
  rw [laidOut.walk, split, place]
  exact mem_placed template.heapSlots 0 before after emission

theorem at_of_mem_walk
    (laidOut : template.LaidOut code)
    {instruction : Instruction}
    (member : instruction ∈ (Instruction.walk template.code).instructions) :
    ∃ shape emission, code.At instruction.offset shape emission ∧
      instruction =
        emission.placedAt template.heapSlots instruction.offset := by
  rw [laidOut.walk] at member
  exact Located.of_mem_placed member

/-- The handlers known at a point, the inner ones first. -/
theorem enclosed
    (laidOut : template.LaidOut code)
    (here : code.At offset shape emission) :
    shape.active.Pairwise (fun newer older => newer.target ≤ older.target) ∧
      ∀ registration ∈ shape.active,
        code.Encloses offset shape registration := by
  rcases Code.at_iff.1 here with inside | ⟨_, rfl, rfl⟩
  · obtain ⟨inner, nested⟩ := Code.nested code laidOut.typed laidOut.fits inside
    have activeEq : shape.active = inner := by
      rw [nested.active]
      exact List.append_nil _
    rw [activeEq]
    refine ⟨nested.sorted, fun registration member => ?_⟩
    obtain ⟨distance, small, ⟨before, located⟩, target⟩ :=
      nested.placed registration member
    exact ⟨(nested.after registration member).2,
      (nested.before registration member).1, nested.depth registration member,
      before, distance, small, Code.at_iff.2 (.inl located), target⟩
  · exact ⟨.nil, fun registration none => by cases none⟩

/-- The value that a handler is made of is a closure of a function of one
argument, and the instruction before made it. -/
theorem made
    (laidOut : template.LaidOut code)
    (here : code.At offset shape emission)
    {function : UInt8}
    (made : shape.made = some function) :
    (∃ inner, template.pools.IsFunction function inner ∧ inner.arity = 1) ∧
      ∃ place before, offset = place + 2 ∧
        code.At place before ⟨.makeClosure, [function]⟩ := by
  rcases Code.at_iff.1 here with inside | ⟨_, rfl, rfl⟩
  · obtain ⟨isFunction, place, next, before, found⟩ :=
      Code.made_of_located laidOut.valid rfl inside made
    exact ⟨isFunction, place, before, next, Code.at_iff.2 (.inl found)⟩
  · cases made

end Template.LaidOut

end EffectScript
