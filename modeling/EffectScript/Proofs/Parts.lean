import EffectScript.Proofs.Lowering

/-!
# Parts of functions

The expressions and blocks of a function are lowered one inside another. Each
such *part* is lowered from a nest, writes emissions behind those that are
there, and what is lowered around it goes on from there.

Later steps of the same function write behind what a part has written. They
patch distances outside of it, and at most they remove its last emission, the
push of a result that nobody uses. Therefore what a part writes stands in the
finished code of its function at the offset at which it was written.
-/

namespace EffectScript

/-- What is lowered as one: an expression, a block, or the rest of a block from
some expression on. -/
inductive Part where
  | expression (expression : Expr)
  | block (block : Block)
  | sequence (first : Expr) (others : List Expr)

namespace Part

/-- Appends the code of a part. -/
def lower (nils : StatementNils) : Part → Nest → Except CompileError Nest
  | .expression term, nest => lowerExpr nils term nest
  | .block body, nest => lowerBlock nils body nest
  | .sequence first others, nest => lowerSequence nils (first :: others) nest

/-- While a part is lowered from a nest, another one is lowered from another
nest, in the same function. -/
inductive Calls (nils : StatementNils) : Part → Nest → Part → Nest → Prop
  | left {op : BinaryOp} {left right : Expr} {position : Position}
      {nest : Nest} :
      Calls nils (.expression (.binary op left right position)) nest
        (.expression left) nest
  | right {op : BinaryOp} {left right : Expr} {position : Position}
      {nest afterLeft : Nest}
      (leftLowered : lowerExpr nils left nest = .ok afterLeft) :
      Calls nils (.expression (.binary op left right position)) nest
        (.expression right) afterLeft
  | operand {op : UnaryOp} {operand : Expr} {position : Position}
      {nest : Nest} :
      Calls nils (.expression (.unary op operand position)) nest
        (.expression operand) nest
  | callee {callee : Expr} {arguments : List Expr} {position : Position}
      {nest : Nest} :
      Calls nils (.expression (.call callee arguments position)) nest
        (.expression callee) nest
  | argument {callee argument : Expr} {before after : List Expr}
      {position : Position}
      {nest afterCallee reached : Nest}
        (calleeLowered : lowerExpr nils callee nest = .ok afterCallee)
      (beforeLowered : lowerArguments nils before afterCallee = .ok reached) :
      Calls nils
        (.expression (.call callee (before ++ argument :: after) position)) nest
        (.expression argument) reached
  | assigned {name : String} {value : Expr} {place position : Position}
      {nest : Nest} :
      Calls nils (.expression (.assign (.ident name place) value position)) nest
        (.expression value) nest
  | body {body : Block} {nest : Nest} :
      Calls nils (.expression (.block body)) nest (.block body) nest
  | condition {condition : Expr} {consequence : Block}
      {alternative : Option Expr} {position : Position}
      {nest : Nest} :
      Calls nils
        (.expression (.branch condition consequence alternative position)) nest
        (.expression condition) nest
  | consequence {condition : Expr} {consequence : Block}
      {alternative : Option Expr}
      {position : Position} {nest afterCondition : Nest}
      (conditionLowered : lowerExpr nils condition nest = .ok afterCondition) :
      Calls nils
        (.expression (.branch condition consequence alternative position)) nest
        (.block consequence)
          (afterCondition.emit .jumpIfFalse [255, 255] position.debugLine)
  | alternative {condition alternative : Expr} {consequence : Block}
      {position : Position}
      {nest afterCondition afterConsequence elsePatched : Nest}
      (conditionLowered : lowerExpr nils condition nest = .ok afterCondition)
      (consequenceLowered : lowerBlock nils consequence
        (afterCondition.emit .jumpIfFalse [255, 255] position.debugLine) =
          .ok afterConsequence)
      (elseLands :
        (afterConsequence.emit .jump [255, 255] position.debugLine).patchJump
        afterCondition.offset position.debugLine = .ok elsePatched) :
      Calls nils
        (.expression
          (.branch condition consequence (some alternative) position)) nest
        (.expression alternative) elsePatched
  | repeatedCondition {condition : Expr} {body : Block} {position : Position}
      {nest : Nest} :
      Calls nils (.expression (.loop condition body position)) nest
        (.expression condition) { nest with current := nest.current.label }
  | repeatedBody {condition : Expr} {body : Block} {position : Position}
      {nest afterCondition : Nest}
      (conditionLowered :
          lowerExpr nils condition { nest with current := nest.current.label } =
        .ok afterCondition) :
      Calls nils (.expression (.loop condition body position)) nest
        (.block body)
          (afterCondition.emit .jumpIfFalse [255, 255] position.debugLine)
  | attempted {body : Block} {clauses : List Clause} {position : Position}
      {nest registered : Nest}
      {places : List Nat} (few : clauses.length ≤ Resource.handlers.limit)
      (clausesLowered : lowerClauses nils clauses nest = .ok
        (places, registered)) :
      Calls nils (.expression (.attempt body clauses position)) nest
        (.block body) registered
  | payload {effect : String} {payload : Expr} {position : Position}
      {nest : Nest} :
      Calls nils (.expression (.perform effect (some payload) position)) nest
        (.expression payload) nest
  | statements {first : Expr} {others : List Expr} {position : Position}
      {nest : Nest} :
      Calls nils (.block ⟨first :: others, position⟩) nest
        (.sequence first others) nest
  | statement {first : Expr} {others : List Expr} {nest : Nest} :
      Calls nils (.sequence first others) nest (.expression first) nest
  | further {first second : Expr} {others : List Expr} {nest afterFirst : Nest}
      (firstLowered : lowerExpr nils first nest = .ok afterFirst) :
      Calls nils (.sequence first (second :: others)) nest
        (.sequence second others)
        (afterFirst.discard nils first.position.debugLine)

/-- While a part is lowered from a nest, the body of another function is lowered
from another nest. -/
inductive Opens (nils : StatementNils) : Part → Nest → Block → Nest → Prop
  | define {name : String} {parameters : List String} {body : Block}
      {position : Position}
      {nest targeted : Nest} {target : StoreTarget} {draft : Draft}
      (found : nest.storeTarget name position.debugLine = .ok
        (target, targeted))
      (started : Draft.start name parameters position.debugLine = .ok draft) :
      Opens nils (.expression (.define name parameters body position)) nest
        body (targeted.enter draft position.debugLine)
  | clause {attempted body : Block} {before after : List Clause}
      {effect parameter : String}
      {place position : Position} {nest registered : Nest} {places : List Nat}
        {draft : Draft}
      (few : (before ++ ⟨effect, parameter, body, place⟩ :: after).length ≤
        Resource.handlers.limit)
      (beforeLowered : lowerClauses nils before nest = .ok (places, registered))
      (started : Draft.start (handlerName effect) [parameter] place.debugLine =
        .ok draft) :
      Opens nils
        (.expression (.attempt attempted
          (before ++ ⟨effect, parameter, body, place⟩ :: after) position))
        nest body (registered.enter draft place.debugLine)

/-- While the body of a function is lowered from a nest, a part of it is lowered
from another nest. -/
inductive Inside (nils : StatementNils) (body : Block) (nest : Nest) :
    Part → Nest → Prop
  | body : Inside nils body nest (.block body) nest
  | part {part other : Part} {inner deeper : Nest}
      (inside : Inside nils body nest part inner)
      (calls : part.Calls nils inner other deeper) :
        Inside nils body nest other deeper

end Part

/-- While a program is compiled, the body of a function is lowered from a
nest. -/
inductive Block.Begins (nils : StatementNils) (program : Block) :
    Block → Nest → Prop
  | script {draft : Draft}
      (started : Draft.start scriptName [] program.position.debugLine =
        .ok draft) :
      Begins nils program program ⟨draft, [], 0⟩
  | function {body other : Block} {nest inner deeper : Nest} {part : Part}
      (begins : Begins nils program body nest)
        (inside : part.Inside nils body nest inner)
      (opens : part.Opens nils inner other deeper) :
        Begins nils program other deeper

open Nest

namespace Nest

variable {held new : List Emission} {nest inner later last : Nest}

/-- A nest was reached by writing emissions. If the draft remembers a removable
instruction, they end in the push of nil. -/
structure Appends (held new : List Emission) (nest later : Nest) : Prop
    extends Lowers held new nest later where
  trails : later.current.removable ≠ none →
    ∃ front, new = front ++ [⟨.pushNil, []⟩]

theorem Lowers.appends
    (lowers : Lowers held new nest later)
    (fixed : later.current.removable = none) :
    Appends held new nest later :=
  ⟨lowers, fun remembered => (remembered fixed).elim⟩

theorem Yields.appends (yields : Yields held nest later) :
    ∃ code, Produces held nest later 1 code ∧
      Appends held code.emissions nest later := by
  obtain ⟨code, produces, droppable⟩ := yields
  refine ⟨code, produces, produces.toLowers, fun remembered => ?_⟩
  obtain ⟨shorter, parts, _⟩ := droppable remembered
  exact ⟨shorter.emissions, parts⟩

/-- The push of a statement's result is written last. -/
theorem Lowers.statementNil
    (lowers : Lowers held new nest later)
    (line : UInt32) :
    Appends held (new ++ [⟨.pushNil, []⟩]) nest
      (later.emitStatementNil line) := by
  have emitted : Lowers held (new ++ [⟨.pushNil, []⟩]) nest
      (later.emit .pushNil [] line) := lowers.emit rfl rfl line
  have alike : (later.emit .pushNil [] line).current.Alike
      (later.emitStatementNil line).current :=
    ⟨rfl, rfl, rfl, rfl, rfl, rfl, rfl, rfl⟩
  exact ⟨emitted.write alike
    ⟨emitted.holds.bytes, emitted.holds.complete, emitted.holds.inRange⟩,
    fun _ => ⟨new, rfl⟩⟩

end Nest

/-! ## One part in another -/

/-- How the emissions of a part stand among those of the part around it, behind
`before`. -/
inductive Adjoins (before new whole : List Emission) (after later : Nest) : Prop
  /-- The part is the last thing that is lowered. -/
  | last (parts : whole = before ++ new) (same : after = later)
  | among (rest : List Emission) (parts : whole = before ++ new ++ rest)
      (fixed : rest ≠ [] ∨ later.current.removable = none)
  /-- The push of the result was removed, and something was written instead. -/
  | cut (front rest : List Emission) (pushes : new = front ++ [⟨.pushNil, []⟩])
      (parts : whole = before ++ front ++ rest) (followed : rest ≠ [])
      (removed : after.current.removable = some (after.offset - 1))

/-- How the emissions of a part stand among those of the function, behind
`before`. -/
inductive Remains (before new whole : List Emission) (after : Nest) : Prop
  | all (rest : List Emission) (parts : whole = before ++ new ++ rest)
  /-- The push of the result was removed. -/
  | cut (front rest : List Emission) (pushes : new = front ++ [⟨.pushNil, []⟩])
      (parts : whole = before ++ front ++ rest)
      (removed : after.current.removable = some (after.offset - 1))

/-- A part of a part stands in the function like the part itself. -/
theorem Remains.adjoin
    {before further new inner whole held : List Emission}
    {start after later : Nest}
    (remains : Remains before new whole later)
    (adjoins : Adjoins further inner new after later)
    (appends : Appends held inner start after) :
    Remains (before ++ further) inner whole after := by
  rcases remains with ⟨rest, rfl⟩ | ⟨outer, rest, pushes, rfl, removed⟩
  · rcases adjoins with ⟨rfl, rfl⟩ | ⟨more, rfl, _⟩ | ⟨front, more, innerPushes,
      rfl, _, removed⟩
    · exact .all rest (by simp only [List.append_assoc])
    · exact .all (more ++ rest) (by simp only [List.append_assoc])
    · exact .cut front (more ++ rest) innerPushes
        (by simp only [List.append_assoc]) removed
  · have remembered : later.current.removable ≠ none := by
      rw [removed]
      exact Option.some_ne_none _
    -- What the part around it lost was written behind the part, unless the part
    -- is the last thing there.
    rcases adjoins with ⟨rfl, rfl⟩ | ⟨more, rfl, fixed⟩ |
      ⟨front, more, innerPushes, rfl, followed, innerRemoved⟩
    · obtain ⟨front, rfl⟩ := appends.trails remembered
      rw [← List.append_assoc] at pushes
      cases (List.append_singleton_inj.1 pushes).1
      exact .cut front rest rfl (by simp only [List.append_assoc]) removed
    · obtain ⟨others, last, rfl⟩ :=
        (List.eq_nil_or_concat more).resolve_left
          (fixed.resolve_right remembered)
      rw [List.concat_eq_append, ← List.append_assoc] at pushes
      cases (List.append_singleton_inj.1 pushes).1
      exact .all (others ++ rest) (by simp only [List.append_assoc])
    · obtain ⟨others, last, rfl⟩ :=
        (List.eq_nil_or_concat more).resolve_left followed
      rw [List.concat_eq_append, ← List.append_assoc] at pushes
      cases (List.append_singleton_inj.1 pushes).1
      exact .cut front (others ++ rest) innerPushes
        (by simp only [List.append_assoc]) innerRemoved

/-! ## What is written behind a part -/

namespace Nest

variable {nils : StatementNils} {held new before : List Emission}
    {nest inner later last : Nest}

/-- Emissions are written behind those that are there. -/
def Extends (nest later : Nest) : Prop :=
  ∀ held, nest.Ready held → ∃ rest, Lowers held rest nest later

/-- Emissions are written behind those that are there, at least one. -/
def Closes (nest later : Nest) : Prop :=
  ∀ held, nest.Ready held → ∃ rest, rest ≠ [] ∧ Appends held rest nest later

theorem Appends.after {more : List Emission}
    (early : Lowers held new nest later)
    (late : Appends (held ++ new) more later last) :
    Appends held (new ++ more) nest last := by
  refine ⟨early.trans late.toLowers, fun remembered => ?_⟩
  obtain ⟨front, rfl⟩ := late.trails remembered
  exact ⟨new ++ front, (List.append_assoc _ _ _).symm⟩

theorem Extends.closes
    (extends_ : Extends nest later)
    (closes : Closes later last) :
    Closes nest last := by
  intro held ready
  obtain ⟨new, lowers⟩ := extends_ held ready
  obtain ⟨rest, followed, appends⟩ := closes _ lowers.toReady
  exact ⟨new ++ rest, List.append_ne_nil_of_right_ne_nil _ followed,
    .after lowers appends⟩

theorem extends_lowerExpr {expression : Expr}
    (lowered : lowerExpr nils expression nest = .ok later) :
    Extends nest later := by
  intro held ready
  obtain ⟨code, produces, _⟩ := lowerExpr_yields expression ready lowered
  exact ⟨code.emissions, produces.toLowers⟩

theorem extends_lowerArguments {arguments : List Expr}
    (lowered : lowerArguments nils arguments nest = .ok later) :
    Extends nest later := by
  intro held ready
  obtain ⟨code, produces⟩ := lowerArguments_produces arguments ready lowered
  exact ⟨code.emissions, produces.toLowers⟩

theorem closes_emit {opcode : Opcode}
    {operands : List UInt8}
    (complete : operands.length = opcode.operandCount)
    (noAccess : opcode.promoted? = none)
    (line : UInt32) :
    Closes nest (nest.emit opcode operands line) :=
  fun _ ready =>
    ⟨_, by simp, (ready.lowers.emit complete noAccess line).appends rfl⟩

theorem Closes.extends (closes : Closes nest later) : Extends nest later := by
  intro held ready
  obtain ⟨rest, _, appends⟩ := closes held ready
  exact ⟨rest, appends.toLowers⟩

theorem closes_binary (op : BinaryOp) (line : UInt32) :
    Closes nest
      (if op.negated then (nest.emit op.opcode [] line).emit .not [] line
      else nest.emit op.opcode [] line) := by
  have applied : Closes nest (nest.emit op.opcode [] line) :=
    closes_emit (by cases op <;> rfl) (by cases op <;> rfl) line
  split
  · exact applied.extends.closes (closes_emit rfl rfl line)
  · exact applied

theorem closes_emitNamed {opcode : Opcode} {name : String}
    {line : UInt32}
    (complete : opcode.operandCount = 1)
    (noAccess : opcode.promoted? = none)
    (emitted : nest.emitNamed opcode name line = .ok later) :
    Closes nest later := by
  obtain ⟨⟨index, indexed⟩, found, result⟩ := Outcome.bind_eq_ok.1 emitted
  cases result
  have named : Extends nest indexed := fun _ ready =>
    ⟨[], (ready.nothing.nameIndex found).1.toLowers⟩
  exact named.closes (closes_emit (by exact complete.symm) noAccess line)

theorem Lowers.emitStore
    (lowers : Lowers held new nest later)
    {target : StoreTarget}
    (valid : target.Valid later.current.pools)
    (line : UInt32) :
    ∃ emission, Lowers held (new ++ [emission]) nest
      (later.emitStore target line) := by
  cases target with
  | slot slot =>
      have stored := lowers.holds.emit ⟨.storeLocal, [slot]⟩ rfl
        (fun _ => valid) line
      rw [Draft.written_storeLocal, List.append_assoc] at stored
      exact ⟨_, lowers.write (Draft.alike_emit _ _ _ _) stored⟩
  | global index => exact ⟨_, lowers.emit rfl rfl line⟩

theorem closes_assign {name : String} {line : UInt32}
    {target : StoreTarget}
    (targeted : nest.storeTarget name line = .ok (target, later)) :
    Closes nest ((later.emitStore target line).emitStatementNil line) := by
  intro held ready
  obtain ⟨produces, valid⟩ := ready.nothing.storeTarget targeted
  obtain ⟨emission, stored⟩ := produces.toLowers.emitStore valid line
  exact ⟨_, by simp, stored.statementNil line⟩

/-- The jump around what a condition decides about. -/
theorem Lowers.decide (lowers : Lowers held new nest later) (line : UInt32) :
    Lowers held (new ++ [⟨.jumpIfFalse, [255, 255]⟩]) nest
      (later.emit .jumpIfFalse [255, 255] line) := lowers.emit rfl rfl line

/-- Where a result is thrown away, its push is removed or it is popped. -/
theorem Appends.discard
    (appends : Appends held new nest later)
    (nils : StatementNils) (line : UInt32) :
    ∃ left, Lowers held left nest (later.discard nils line) ∧
      ∀ {before rest : List Emission} (last : Nest), rest ≠ [] →
        Adjoins before new (before ++ left ++ rest) later last := by
  have popped : ∃ left, Lowers held left nest (later.emit .pop [] line) ∧
      ∀ {before rest : List Emission} (last : Nest), rest ≠ [] →
        Adjoins before new (before ++ left ++ rest) later last :=
    ⟨new ++ [⟨.pop, []⟩], appends.toLowers.emit rfl rfl line,
        fun {before rest} _ _ =>
      .among (⟨.pop, []⟩ :: rest) (by simp) (.inl (List.cons_ne_nil _ _))⟩
  unfold Nest.discard Draft.discard
  split
  next offset remembered =>
    split
    next trailing =>
      obtain ⟨front, rfl⟩ :=
        appends.trails (by rw [remembered]; exact Option.some_ne_none _)
      have holds := appends.holds
      rw [← List.append_assoc] at holds
      have removed : later.current.removable = some (later.offset - 1) := by
        rw [remembered, Nest.offset, ← trailing, Nat.add_sub_cancel]
      refine ⟨front, ?_, fun {before rest} _ followed =>
        .cut front rest rfl rfl followed removed⟩
      apply appends.toLowers.write
      · exact ⟨rfl, rfl, rfl, rfl, rfl, rfl, rfl, rfl⟩
      · exact holds.pop rfl rfl rfl rfl
    · exact popped
  next => exact popped

end Nest

theorem lowerArguments_append {nils : StatementNils}
    (before others : List Expr)
    (nest : Nest) :
    lowerArguments nils (before ++ others) nest =
      lowerArguments nils before nest >>= lowerArguments nils others := by
  induction before generalizing nest with
  | nil => rfl
  | cons first rest inner =>
      simp only [List.cons_append, lowerArguments]
      cases lowerExpr nils first nest with
      | error error => rfl
      | ok afterFirst => exact inner afterFirst

/-- Code that leaves another count of values has emissions. -/
theorem Code.heightAfter_of_emissions_eq_nil {code : Code}
    (none : code.emissions = [])
    (height : Nat) :
    code.heightAfter height = height := by
  induction code generalizing height with
  | nothing => rfl
  | sequence first second firstSame secondSame =>
      obtain ⟨firstNone, secondNone⟩ := List.append_eq_nil_iff.1 none
      rw [heightAfter, firstSame firstNone, secondSame secondNone]
  | loop condition body _ _ => rfl
  | plain emission => cases none
  | branch condition consequence alternative _ _ _ => simp [emissions] at none
  | attempt clauses body _ => simp [emissions] at none

theorem Nest.Produces.emissions_ne_nil
    {held : List Emission} {nest later : Nest} {code : Code}
    (produces : Produces held nest later 1 code) :
    code.emissions ≠ [] := fun none => by
  have level := produces.height
  rw [Code.heightAfter_of_emissions_eq_nil none] at level
  cases level

namespace Part

variable {nils : StatementNils} {held before : List Emission}
    {part other : Part} {nest inner later : Nest}

theorem lower_yields
    (part : Part) (ready : nest.Ready held)
    (lowered : part.lower nils nest = .ok later) :
    Yields held nest later := by
  cases part with
  | expression term => exact lowerExpr_yields term ready lowered
  | block body => exact lowerBlock_yields body ready lowered
  | sequence first others =>
      exact lowerSequence_yields (first :: others) (List.cons_ne_nil _ _)
        ready lowered

/-- A part is lowered inside another one. If the outer one is lowered then so is
the inner one, and what it writes stands in what the outer one writes. -/
def Embeds
    (nils : StatementNils) (held : List Emission) (part : Part) (nest : Nest)
    (other : Part) (inner : Nest) : Prop :=
  ∃ innerHeld, inner.Ready innerHeld ∧
    ∀ later, part.lower nils nest = .ok later →
    ∃ after, other.lower nils inner = .ok after ∧
      ∀ new, Appends innerHeld new inner after →
      ∃ before whole, totalSize innerHeld = totalSize (held ++ before) ∧
        Appends held whole nest later ∧
        Adjoins before new whole after later

/-- A part is embedded when the outer one only writes behind it. -/
theorem embeds_of_closes
    (reached : Lowers held before nest inner)
    (closes : ∀ later, part.lower nils nest = .ok later → ∃ after,
      other.lower nils inner = .ok after ∧ after.Closes later) :
    Embeds nils held part nest other inner := by
  refine ⟨_, reached.toReady, fun later lowered => ?_⟩
  obtain ⟨after, innerLowered, closing⟩ := closes later lowered
  refine ⟨after, innerLowered, fun new appends => ?_⟩
  have through := reached.trans appends.toLowers
  obtain ⟨rest, followed, ends⟩ := closing _ through.toReady
  exact ⟨before, (before ++ new) ++ rest, rfl, .after through ends,
    .among rest rfl (.inl followed)⟩

/-- A part is embedded when it is the last thing that the outer one lowers. -/
theorem embeds_of_last
    (reached : Lowers held before nest inner)
    (same : ∀ later, part.lower nils nest = .ok later →
      other.lower nils inner = .ok later) :
    Embeds nils held part nest other inner :=
  ⟨_, reached.toReady, fun later lowered =>
      ⟨later, same later lowered, fun new appends =>
    ⟨before, before ++ new, rfl, .after reached appends, .last rfl rfl⟩⟩⟩

section Choices

variable {condition : Expr} {consequence body : Block} {position : Position}
  {afterCondition afterConsequence elsePatched : Nest}

theorem embeds_condition (ready : nest.Ready held) {alternative : Option Expr} :
    Embeds nils held
      (.expression (.branch condition consequence alternative position)) nest
      (.expression condition) nest := by
  refine ⟨held, ready, fun later lowered => ?_⟩
  obtain ⟨afterCondition, _, _, _, conditionLowered, consequenceLowered,
    elseLands, alternativeLowered, endLands⟩ := Lowered.branch lowered
  refine ⟨afterCondition, conditionLowered, fun new appends => ?_⟩
  obtain ⟨_, consequenceProduces, _⟩ :=
    lowerBlock_yields consequence (appends.toLowers.decide _).toReady
      consequenceLowered
  obtain ⟨chosen, _⟩ :=
    appends.toLowers.throughConsequence consequenceProduces.toLowers elseLands
  obtain ⟨_, alternativeProduces, _⟩ :=
    lowerOptional_yields alternative chosen.toReady alternativeLowered
  obtain ⟨finished, _, _, fixed⟩ :=
    chosen.throughAlternative alternativeProduces.toLowers
      consequenceProduces.toReady.offset endLands
  exact ⟨[], _, by rw [List.append_nil], finished.appends fixed,
    .among _ rfl (.inr fixed)⟩

theorem embeds_consequence
    (ready : nest.Ready held)
    {alternative : Option Expr}
    (conditionLowered : lowerExpr nils condition nest = .ok afterCondition) :
    Embeds nils held
      (.expression (.branch condition consequence alternative position)) nest
      (.block consequence)
        (afterCondition.emit .jumpIfFalse [255, 255] position.debugLine) := by
  obtain ⟨conditionCode, conditionProduces, _⟩ :=
    lowerExpr_yields condition ready conditionLowered
  have decided := conditionProduces.toLowers.decide position.debugLine
  refine ⟨_, decided.toReady, fun later lowered => ?_⟩
  obtain ⟨_, afterConsequence, _, _, again, consequenceLowered, elseLands,
    alternativeLowered, endLands⟩ := Lowered.branch lowered
  cases conditionLowered.symm.trans again
  refine ⟨afterConsequence, consequenceLowered, fun new appends => ?_⟩
  obtain ⟨chosen, _⟩ :=
    conditionProduces.toLowers.throughConsequence appends.toLowers elseLands
  obtain ⟨alternativeCode, alternativeProduces, _⟩ :=
    lowerOptional_yields alternative chosen.toReady alternativeLowered
  obtain ⟨finished, _, _, fixed⟩ :=
    chosen.throughAlternative alternativeProduces.toLowers
      appends.toReady.offset endLands
  refine ⟨conditionCode.emissions ++
    [⟨.jumpIfFalse, Instruction.shortBytes (totalSize new + 3)⟩], _, ?_,
    finished.appends fixed,
    .among
      (⟨.jump, Instruction.shortBytes (totalSize alternativeCode.emissions)⟩ ::
      alternativeCode.emissions) ?_ (.inr fixed)⟩
  · simp [Emission.size, Instruction.shortBytes]
  · simp

theorem embeds_alternative
    (ready : nest.Ready held)
    {alternative : Expr}
    (conditionLowered : lowerExpr nils condition nest = .ok afterCondition)
    (consequenceLowered :
      lowerBlock nils consequence
        (afterCondition.emit .jumpIfFalse [255, 255] position.debugLine) =
          .ok afterConsequence)
    (elseLands :
      (afterConsequence.emit .jump [255, 255] position.debugLine).patchJump
        afterCondition.offset position.debugLine = .ok elsePatched) :
    Embeds nils held
      (.expression (.branch condition consequence (some alternative) position))
      nest (.expression alternative) elsePatched := by
  obtain ⟨conditionCode, conditionProduces, _⟩ :=
    lowerExpr_yields condition ready conditionLowered
  have decided := conditionProduces.toLowers.decide position.debugLine
  obtain ⟨consequenceCode, consequenceProduces, _⟩ :=
    lowerBlock_yields consequence decided.toReady consequenceLowered
  obtain ⟨chosen, _⟩ :=
    conditionProduces.toLowers.throughConsequence
      consequenceProduces.toLowers elseLands
  refine ⟨_, chosen.toReady, fun later lowered => ?_⟩
  obtain ⟨_, _, _, afterAlternative, conditionAgain, consequenceAgain,
    landsAgain, alternativeLowered, endLands⟩ := Lowered.branch lowered
  cases conditionLowered.symm.trans conditionAgain
  cases consequenceLowered.symm.trans consequenceAgain
  cases elseLands.symm.trans landsAgain
  simp only [lowerOptional] at alternativeLowered
  refine ⟨afterAlternative, alternativeLowered, fun new appends => ?_⟩
  obtain ⟨finished, _, _, fixed⟩ :=
    chosen.throughAlternative appends.toLowers
      consequenceProduces.toReady.offset endLands
  refine ⟨conditionCode.emissions ++
    ⟨.jumpIfFalse, Instruction.shortBytes
      (totalSize consequenceCode.emissions + 3)⟩ ::
      (consequenceCode.emissions ++
        [⟨.jump, Instruction.shortBytes (totalSize new)⟩]), _, ?_,
    finished.appends fixed, .among [] ?_ (.inr fixed)⟩
  · simp [Emission.size, Instruction.shortBytes]
  · simp

/-- A repetition with the results of its condition and its body. -/
theorem embeds_repeatedCondition (ready : nest.Ready held) :
    Embeds nils held (.expression (.loop condition body position)) nest
      (.expression condition) { nest with current := nest.current.label } := by
  refine ⟨held, ready.label, fun later lowered => ?_⟩
  obtain ⟨afterCondition, _, _, _, conditionLowered, bodyLowered, returns,
      exitLands, rfl⟩ := Lowered.loop lowered
  refine ⟨afterCondition, conditionLowered, fun new appends => ?_⟩
  obtain ⟨_, bodyProduces⟩ :=
    (lowerBlock_yields body (appends.toLowers.decide _).toReady
      bodyLowered).discard
    nils position.debugLine
  obtain ⟨finished, _⟩ :=
    appends.toLowers.throughLoop ready.label bodyProduces.toLowers
      returns exitLands
  exact ⟨[], _, by rw [List.append_nil], finished.fromLabel.statementNil _,
    .among _ (List.append_assoc _ _ _) (.inl (List.cons_ne_nil _ _))⟩

theorem embeds_repeatedBody
    (ready : nest.Ready held)
    (conditionLowered : lowerExpr nils condition
      { nest with current := nest.current.label } = .ok afterCondition) :
    Embeds nils held (.expression (.loop condition body position)) nest
      (.block body)
        (afterCondition.emit .jumpIfFalse [255, 255] position.debugLine) := by
  obtain ⟨conditionCode, conditionProduces, _⟩ :=
    lowerExpr_yields condition ready.label conditionLowered
  have decided := conditionProduces.toLowers.decide position.debugLine
  refine ⟨_, decided.toReady, fun later lowered => ?_⟩
  obtain ⟨_, afterBody, _, exitPatched, again, bodyLowered, returns,
      exitLands, rfl⟩ := Lowered.loop lowered
  cases conditionLowered.symm.trans again
  refine ⟨afterBody, bodyLowered, fun new appends => ?_⟩
  obtain ⟨left, discarded, adjoins⟩ := appends.discard nils position.debugLine
  obtain ⟨finished, _⟩ :=
    conditionProduces.toLowers.throughLoop ready.label discarded
      returns exitLands
  have written := finished.fromLabel.statementNil position.debugLine
  refine ⟨conditionCode.emissions ++
    [⟨.jumpIfFalse, Instruction.shortBytes (totalSize left + 3)⟩], _, ?_,
    written, ?_⟩
  · simp [Emission.size, Instruction.shortBytes]
  · have stands := @adjoins
      (conditionCode.emissions ++
        [⟨.jumpIfFalse, Instruction.shortBytes (totalSize left + 3)⟩])
      [⟨.loop, Instruction.shortBytes
        (totalSize conditionCode.emissions + 3 + totalSize left + 3)⟩,
        ⟨.pushNil, []⟩]
      (exitPatched.emitStatementNil position.debugLine) (List.cons_ne_nil _ _)
    simpa using stands

end Choices

theorem embeds_attempted
    (ready : nest.Ready held)
    {body : Block} {clauses : List Clause} {position : Position}
    {registered : Nest} {places : List Nat}
    (clausesLowered : lowerClauses nils clauses nest = .ok
      (places, registered)) :
    Embeds nils held (.expression (.attempt body clauses position)) nest
      (.block body) registered := by
  obtain ⟨pairs, registers, rfl, count⟩ :=
    lowerClauses_registers clauses ready clausesLowered
  refine ⟨_, registers.toReady, fun later lowered => ?_⟩
  obtain ⟨_, _, _, afterBody, again, bodyLowered, lands⟩ :=
    Lowered.attempt lowered
  cases clausesLowered.symm.trans again
  refine ⟨afterBody, bodyLowered, fun new appends => ?_⟩
  rw [← count] at lands
  have through : Lowers held ([] ++ (pending pairs ++ (new ++
      [⟨.popHandlers, [UInt8.ofNat pairs.length]⟩]))) nest
      (afterBody.emit .popHandlers [UInt8.ofNat pairs.length]
        position.debugLine) := by
    simpa using (registers.toLowers.trans appends.toLowers).emit
      (show [UInt8.ofNat pairs.length].length = Opcode.popHandlers.operandCount
        from rfl) rfl position.debugLine
  obtain ⟨finished, fixed, _⟩ :=
    through.patchHandlers rfl (by simpa using lands)
  refine ⟨Code.registrations
    (totalSize (new ++ [⟨.popHandlers, [UInt8.ofNat pairs.length]⟩]))
    pairs, _, ?_,
    finished.appends fixed, .among [⟨.popHandlers, [UInt8.ofNat pairs.length]⟩]
      ?_ (.inr fixed)⟩
  · simp [totalSize_pending]
  · simp

theorem embeds_statement
    (ready : nest.Ready held)
    {first : Expr} {others : List Expr} :
    Embeds nils held (.sequence first others) nest
      (.expression first) nest := by
  refine ⟨held, ready, fun later lowered => ?_⟩
  obtain ⟨afterFirst, firstLowered, rest⟩ := Lowered.sequence lowered
  refine ⟨afterFirst, firstLowered, fun new appends => ?_⟩
  rcases rest with ⟨rfl, rfl⟩ | ⟨more, rest⟩
  · exact ⟨[], new, by rw [List.append_nil], appends, .last rfl rfl⟩
  · obtain ⟨left, discarded, adjoins⟩ :=
      appends.discard nils first.position.debugLine
    obtain ⟨code, produces, ends⟩ :=
      (lowerSequence_yields others more discarded.toReady rest).appends
    exact ⟨[], _, by rw [List.append_nil], .after discarded ends,
      adjoins later produces.emissions_ne_nil⟩

/-- Every part that is lowered inside another one is embedded in it. -/
theorem Calls.embeds
    (calls : part.Calls nils nest other inner)
    (ready : nest.Ready held) :
    Embeds nils held part nest other inner := by
  cases calls with
  | @left op left right position nest =>
      refine embeds_of_closes ready.lowers fun later lowered => ?_
      obtain ⟨afterLeft, _, leftLowered, rightLowered, rfl⟩ :=
        Lowered.binary lowered
      exact ⟨afterLeft, leftLowered, (extends_lowerExpr rightLowered).closes
        (closes_binary op _)⟩
  | @right op left right position nest afterLeft leftLowered =>
      obtain ⟨_, reached⟩ := extends_lowerExpr leftLowered held ready
      refine embeds_of_closes reached fun later lowered => ?_
      obtain ⟨_, afterRight, again, rightLowered, rfl⟩ := Lowered.binary lowered
      cases leftLowered.symm.trans again
      exact ⟨afterRight, rightLowered, closes_binary op _⟩
  | @operand op operand position nest =>
      refine embeds_of_closes ready.lowers fun later lowered => ?_
      obtain ⟨afterOperand, operandLowered, rfl⟩ := Lowered.unary lowered
      exact ⟨afterOperand, operandLowered, closes_emit (by cases op <;> rfl)
        (by cases op <;> rfl) _⟩
  | @callee callee arguments position nest =>
      refine embeds_of_closes ready.lowers fun later lowered => ?_
      obtain ⟨afterCallee, _, calleeLowered, argumentsLowered, _, rfl⟩ :=
        Lowered.call lowered
      exact ⟨afterCallee, calleeLowered,
        (extends_lowerArguments argumentsLowered).closes
          (closes_emit rfl rfl _)⟩
  | @argument callee argument before after position nest afterCallee reached
        calleeLowered beforeLowered =>
      obtain ⟨_, called⟩ := extends_lowerExpr calleeLowered held ready
      obtain ⟨_, there⟩ := extends_lowerArguments beforeLowered _ called.toReady
      refine embeds_of_closes (called.trans there) fun later lowered => ?_
      obtain ⟨_, _, calleeAgain, argumentsLowered, _, rfl⟩ :=
        Lowered.call lowered
      cases calleeLowered.symm.trans calleeAgain
      rw [lowerArguments_append] at argumentsLowered
      obtain ⟨_, beforeAgain, rest⟩ := Outcome.bind_eq_ok.1 argumentsLowered
      cases beforeLowered.symm.trans beforeAgain
      obtain ⟨afterArgument, argumentLowered, afterLowered⟩ :=
        Lowered.arguments rest
      exact ⟨afterArgument, argumentLowered,
        (extends_lowerArguments afterLowered).closes (closes_emit rfl rfl _)⟩
  | @assigned name value place position nest =>
      refine embeds_of_closes ready.lowers fun later lowered => ?_
      obtain ⟨_, _, afterValue, _, _, ⟨⟩, valueLowered, found, rfl⟩ :=
        Lowered.assign lowered
      exact ⟨afterValue, valueLowered, closes_assign found⟩
  | body =>
      refine embeds_of_last ready.lowers fun later lowered => ?_
      simpa only [lower, lowerExpr] using lowered
  | condition => exact embeds_condition ready
  | consequence conditionLowered =>
      exact embeds_consequence ready conditionLowered
  | alternative conditionLowered consequenceLowered elseLands =>
      exact embeds_alternative ready conditionLowered
        consequenceLowered elseLands
  | repeatedCondition => exact embeds_repeatedCondition ready
  | repeatedBody conditionLowered =>
      exact embeds_repeatedBody ready conditionLowered
  | attempted _ clausesLowered => exact embeds_attempted ready clausesLowered
  | @payload effect payload position nest =>
      refine embeds_of_closes ready.lowers fun later lowered => ?_
      obtain ⟨afterPayload, payloadLowered, emitted⟩ := Lowered.perform lowered
      simp only [lowerOptional] at payloadLowered
      exact ⟨afterPayload, payloadLowered, closes_emitNamed rfl rfl emitted⟩
  | statements =>
      refine embeds_of_last ready.lowers fun later lowered => ?_
      simpa only [lower, lowerBlock, List.isEmpty_cons, Bool.false_eq_true,
        if_false] using lowered
  | statement => exact embeds_statement ready
  | @further first second others nest afterFirst firstLowered =>
      obtain ⟨_, discarded⟩ :=
        (lowerExpr_yields first ready firstLowered).discard nils
          first.position.debugLine
      refine embeds_of_last discarded.toLowers fun later lowered => ?_
      obtain ⟨_, again, rest⟩ := Lowered.sequence lowered
      cases firstLowered.symm.trans again
      rcases rest with ⟨none, _⟩ | ⟨_, rest⟩
      · cases none
      · exact rest

/-- Every part of a function is lowered from a ready nest. If the body of the
function is lowered then so is the part, and what it writes remains in what the
body writes. -/
theorem Inside.remains {body : Block}
    (inside : part.Inside nils body nest inner)
    (ready : nest.Ready held) :
    ∃ innerHeld, inner.Ready innerHeld ∧
      ∀ later, lowerBlock nils body nest = .ok later →
        ∃ after, part.lower nils inner = .ok after ∧
        ∀ new, Appends innerHeld new inner after → ∃ before whole,
          totalSize innerHeld = totalSize (held ++ before) ∧
          Appends held whole nest later ∧
            Remains before new whole after := by
  induction inside with
  | body =>
      refine ⟨held, ready, fun later lowered =>
        ⟨later, lowered, fun new appends => ?_⟩⟩
      exact ⟨[], new, by rw [List.append_nil], appends, .all [] (by simp)⟩
  | part _ calls outer =>
      obtain ⟨outerHeld, outerReady, outerRemains⟩ := outer
      obtain ⟨innerHeld, innerReady, embeds⟩ := calls.embeds outerReady
      refine ⟨innerHeld, innerReady, fun later lowered => ?_⟩
      obtain ⟨outerLater, outerLowered, remains⟩ := outerRemains later lowered
      obtain ⟨after, innerLowered, adjoins⟩ := embeds outerLater outerLowered
      refine ⟨after, innerLowered, fun new appends => ?_⟩
      obtain ⟨further, between, place, betweenAppends, stands⟩ :=
        adjoins new appends
      obtain ⟨before, whole, outerPlace, wholeAppends, stays⟩ :=
        remains between betweenAppends
      refine ⟨before ++ further, whole, ?_, wholeAppends,
        stays.adjoin stands appends⟩
      rw [place, totalSize_append, outerPlace, ← totalSize_append,
        List.append_assoc]

/-- The body of another function is lowered from a ready nest, behind the
comment with its name. -/
theorem Opens.ready {body : Block}
    (opens : part.Opens nils nest body inner)
    (ready : nest.Ready held) :
    inner.Ready [⟨.comment, []⟩] := by
  cases opens with
  | define found started =>
      exact (ready.nothing.storeTarget found).1.toReady.enter started
  | clause _ beforeLowered started =>
      obtain ⟨_, registers, _⟩ := lowerClauses_registers _ ready beforeLowered
      exact registers.toReady.enter started

end Part

/-- The body of every function is lowered from a ready nest, in which at most a
comment is written. -/
theorem Block.Begins.ready {nils : StatementNils}
    {program body : Block} {nest : Nest}
    (begins : Block.Begins nils program body nest) :
    ∃ held, nest.Ready held ∧ (held = [] ∨ held = [⟨.comment, []⟩]) := by
  induction begins with
  | script started =>
      obtain ⟨sound, holds, _, captures⟩ := Draft.start_spec started
      exact ⟨[], ⟨⟨sound, captures⟩, holds⟩, .inl rfl⟩
  | function _ inside opens outer =>
      obtain ⟨_, ready, _⟩ := outer
      obtain ⟨_, innerReady, _⟩ := inside.remains ready
      exact ⟨_, opens.ready innerReady, .inr rfl⟩

end EffectScript
