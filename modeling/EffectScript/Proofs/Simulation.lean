import EffectScript.Proofs.Translation

/-!
# Simple programs run as they evaluate

Lowering a simple expression in the script writes code that means its
evaluation. So a compiled simple program, run on a fresh machine, ends as its
evaluation does: with the same value or the same exception, and with the same
globals, methods and output. The only other way for it to end is that an operand
stack is full, or that no frame may be opened at all.
-/

namespace EffectScript

open Machine Nest

/-! ## Scripts -/

namespace Nest

/-- The nest writes the script, in which only its own name has a slot and
nothing is boxed. -/
structure InScript (nest : Nest) : Prop where
  enclosing : nest.enclosing = []
  slots : nest.current.slots = [(scriptName, 0)]
  heapSlots : nest.current.heapSlots = []

/-- Patching a jump does not touch the slots. -/
theorem InScript.patchJump {nest later : Nest} {site : Nat}
    {line : UInt32}
    (script : nest.InScript)
    (patched : nest.patchJump site line = .ok later) :
    later.InScript := by
  obtain ⟨draft, patch, result⟩ := Outcome.bind_eq_ok.1 patched
  cases result
  have alike := Draft.alike_patchTo patch
  exact ⟨script.enclosing, alike.slots.trans script.slots,
    alike.heapSlots.trans script.heapSlots⟩

/-- The nest was reached by writing code in the script that has a meaning. -/
structure Translates {α : Type}
    (held new : List Emission) (nest later : Nest)
    (meaning : Nat → Machine → Evaluation α)
    (left : α → List Value) : Prop extends Lowers held new nest later where
  script : later.InScript
  means : Means later.current.pools new meaning left

/-- The nest was reached by writing code in the script that leaves the result of
a meaning. If the draft remembers a removable instruction, the code only pushes
nil at its end. -/
def Expresses
    (held : List Emission) (nest later : Nest)
    (meaning : Nat → Machine → Evaluation Value) : Prop :=
  ∃ new, Translates held new nest later meaning onTop ∧
    (later.current.removable ≠ none →
      ∃ shorter, new = shorter ++ [⟨.pushNil, []⟩] ∧
        Means later.current.pools shorter meaning dropped)

variable {α : Type} {held new : List Emission} {nest later last : Nest}
  {meaning : Nat → Machine → Evaluation Value} {line : UInt32}

theorem Translates.expresses
    (translates : Translates held new nest later meaning onTop)
    (fixed : later.current.removable = none) :
    Expresses held nest later meaning :=
  ⟨new, translates, fun remembered => (remembered fixed).elim⟩

/-- One more operation. -/
theorem Translates.emit
    {before : Nat → Machine → Evaluation α} {left : α → List Value}
    (translates : Translates held new nest later before left)
    (emission : Emission)
    (complete : emission.Complete)
    (noAccess : emission.opcode.promoted? = none)
    (line : UInt32)
    {left : α → List Value} {meaning : Nat → Machine → Evaluation α}
    (means : Means later.current.pools (new ++ [emission]) meaning left) :
    Translates held (new ++ [emission]) nest
      (later.emit emission.opcode emission.operands line) meaning left :=
  ⟨translates.toLowers.emit complete noAccess line,
    ⟨translates.script.enclosing, translates.script.slots,
      translates.script.heapSlots⟩, means⟩

/-- Nothing is written yet. -/
theorem Ready.translates
    (ready : nest.Ready held) (script : nest.InScript) (result : α)
    (left : α → List Value) (empty : left result = []) :
    Translates held [] nest nest (fun _ world => .value result world) left :=
  ⟨ready.lowers, script, .nothing empty⟩

/-- The result of a statement is nil. -/
theorem Translates.statementNil
    (translates : Translates held new nest later meaning dropped)
    (givesNil : ∀ bound world, (meaning bound world).withResult
      (fun _ => .nil) = meaning bound world)
    (line : UInt32) :
    Expresses held nest (later.emitStatementNil line) meaning := by
  have pushed := translates.emit ⟨.pushNil, []⟩ rfl rfl line
    (translates.means.pushNil givesNil)
  refine
    ⟨_,
      ⟨?_, ⟨pushed.script.enclosing, pushed.script.slots,
        pushed.script.heapSlots⟩,
    translates.means.pushNil givesNil⟩, ?_⟩
  · apply pushed.toLowers.write
    · exact ⟨rfl, rfl, rfl, rfl, rfl, rfl, rfl, rfl⟩
    · exact ⟨pushed.holds.bytes, pushed.holds.complete, pushed.holds.inRange⟩
  · exact fun _ => ⟨new, rfl, translates.means⟩

/-- A result that nobody uses is popped, or is not pushed at all. -/
theorem Expresses.discard
    (expresses : Expresses held nest later meaning)
    (nils : StatementNils) (line : UInt32) :
    ∃ new, Translates held new nest (later.discard nils line) meaning
      dropped := by
  obtain ⟨new, translates, droppable⟩ := expresses
  have popped : ∃ new, Translates held new nest (later.emit .pop [] line)
      meaning dropped :=
    ⟨_, translates.emit ⟨.pop, []⟩ rfl rfl line translates.means.pop⟩
  unfold Nest.discard Draft.discard
  split
  next offset remembered =>
    split
    · obtain ⟨shorter, parts, means⟩ :=
        droppable (by rw [remembered]; exact Option.some_ne_none _)
      have holds := translates.holds
      rw [parts, ← List.append_assoc] at holds
      refine ⟨shorter, ?_,
        ⟨translates.script.enclosing, translates.script.slots,
          translates.script.heapSlots⟩, means⟩
      apply translates.toLowers.write
      · exact ⟨rfl, rfl, rfl, rfl, rfl, rfl, rfl, rfl⟩
      · exact holds.pop rfl rfl rfl rfl
    · exact popped
  next => exact popped

/-! ## Names and constants -/

theorem InScript.resolve
    (script : nest.InScript)
    {name : String}
    (identifier : isIdentifier name) :
    nest.resolve name line = .ok (none, nest) := by
  have unslotted : nest.current.slot? name = none := by
    simp [Draft.slot?, script.slots, ne_scriptName_of_isIdentifier identifier]
  unfold Nest.resolve
  rw [script.enclosing, Nest.resolveFrom, unslotted, Outcome.ok_bind]
  obtain ⟨enclosing, _, _⟩ := script
  cases nest
  simp_all
  rfl

/-- Finding the index of a name writes nothing. -/
theorem Translates.nameIndex
    {meaning : Nat → Machine → Evaluation α} {left : α → List Value}
    (translates : Translates held new nest later meaning left)
    {name : String} {index : UInt8}
    (named : later.nameIndex name line = .ok (index, last)) :
    Translates held new nest last meaning left ∧
      last.current.pools.names[index.toNat]? = some name := by
  obtain ⟨⟨_, draft⟩, indexed, result⟩ := Outcome.bind_eq_ok.1 named
  cases result
  have draftSound := translates.linked.sound
  obtain ⟨sound, keeps, _, captures⟩ := draftSound.nameIndex indexed
  have draftScript : ({ later with current := draft } : Nest).InScript := by
    obtain ⟨enclosing, slots, heapSlots⟩ := translates.script
    rcases Draft.nameIndex_cases indexed with ⟨_, rfl⟩ | ⟨_, _, _, rfl⟩ <;>
      exact ⟨enclosing, slots, heapSlots⟩
  refine
    ⟨⟨translates.toLowers.keep (translates.linked.replace sound captures) keeps
      (List.forall₂_same.2 fun draft _ => .refl draft), draftScript,
    translates.means.mono keeps.pools⟩, draftSound.nameIndex_eq indexed⟩

theorem Ready.global
    (ready : nest.Ready held) (script : nest.InScript)
    {name : String}
    (identifier : isIdentifier name)
    (readable : name ≠ wildcard)
    (loaded : nest.loadVariable name line = .ok later) :
    Expresses held nest later fun _ world => match world.globals.find? name with
      | some value => .value value world
      | none => .raised (Exception.undefinedName name) world := by
  simp only [Nest.loadVariable, readable, if_false, script.resolve identifier,
    Outcome.ok_bind] at loaded
  obtain ⟨⟨index, named⟩, indexed, result⟩ := Outcome.bind_eq_ok.1 loaded
  cases result
  obtain ⟨translates, present⟩ :=
    (ready.translates script Value.nil dropped rfl).nameIndex indexed
  exact (translates.emit ⟨.loadGlobal, [index]⟩ rfl rfl line
    (means_global present)).expresses rfl

/-- Pushing a literal gives its value. -/
theorem Ready.literalValue
    (ready : nest.Ready held) (script : nest.InScript)
    {literal : Literal} {value : Value}
    (valueEq : literal.value? = some value)
    (pushed : nest.literal literal line = .ok later) :
    Expresses held nest later fun _ world => .value value world := by
  have empty := ready.translates script Value.nil dropped rfl
  have constant (scalar : value.isScalar) (plain : value.Plain)
      (emitted : nest.emitConstant value line = .ok later) :
      Expresses held nest later fun _ world => .value value world := by
    obtain ⟨⟨index, draft⟩, pooled, result⟩ := Outcome.bind_eq_ok.1 emitted
    cases result
    have draftSound := ready.linked.sound
    obtain ⟨sound, keeps, captures, stands⟩ :=
      draftSound.addConstant pooled (by rintro _ _ rfl; cases scalar)
    have draftScript : ({ nest with current := draft } : Nest).InScript := by
      obtain ⟨enclosing, slots, heapSlots⟩ := script
      rcases Draft.addConstant_cases pooled
        with ⟨_, _, rfl⟩ | ⟨_, _, _, rfl⟩ <;>
        exact ⟨enclosing, slots, heapSlots⟩
    have kept : Translates held [] nest { nest with current := draft }
        (fun _ world => .value Value.nil world) dropped :=
      ⟨empty.toLowers.keep (ready.linked.replace sound captures) keeps
        (List.forall₂_same.2 fun draft _ => .refl draft), draftScript,
          empty.means.mono keeps.pools⟩
    exact (kept.emit ⟨.loadConst, [index]⟩ rfl rfl line
      (means_constant plain stands)).expresses rfl
  cases literal with
  | nil =>
      cases valueEq
      cases pushed
      exact (empty.emit ⟨.pushNil, []⟩ rfl rfl line means_pushNil).expresses rfl
  | bool truth =>
      cases valueEq
      cases truth with
      | false =>
          cases pushed
          exact (empty.emit ⟨.pushFalse, []⟩ rfl rfl line
            (means_pushBool false)).expresses rfl
      | true =>
          cases pushed
          exact (empty.emit ⟨.pushTrue, []⟩ rfl rfl line
            (means_pushBool true)).expresses rfl
  | int number =>
      cases valueEq
      exact constant rfl (.int number) pushed
  | str text =>
      cases valueEq
      exact constant rfl (.str text) pushed
  | float number => cases valueEq

/-! ## Expressions -/

/-- Code after code that leaves nothing. -/
theorem Translates.then
    {early : Nat → Machine → Evaluation α}
    (first : Translates held new nest later early dropped)
    (second : Expresses (held ++ new) later last meaning) :
    Expresses held nest last fun bound world =>
      (early bound world).andThen fun _ after => meaning bound after := by
  obtain ⟨more, translates, droppable⟩ := second
  have earlyMeans := first.means.mono translates.grows.pools
  refine ⟨new ++ more,
    ⟨first.toLowers.trans translates.toLowers, translates.script,
      earlyMeans.sequence translates.means⟩, fun remembered => ?_⟩
  obtain ⟨shorter, rfl, shorterMeans⟩ := droppable remembered
  exact ⟨new ++ shorter, (List.append_assoc _ _ _).symm,
    earlyMeans.sequence shorterMeans⟩

theorem Translates.binary {left right : List Emission}
    {early late : Nat → Machine → Evaluation Value}
    (op : BinaryOp)
    (first : Translates held left nest later early onTop)
    (second : Translates (held ++ left) right later last late onTop)
    (line : UInt32) :
    Expresses held nest
      (if op.negated then (last.emit op.opcode [] line).emit .not [] line
        else last.emit op.opcode [] line)
      fun bound world => (early bound world).andThen fun first afterLeft =>
        (late bound afterLeft).andThen fun second afterRight =>
          op.evaluate first second afterRight := by
  have means := (first.means.mono second.grows.pools).binary op second.means
  have both := first.toLowers.trans second.toLowers
  have applied := both.emit
    (show [].length = op.opcode.operandCount by cases op <;> rfl)
    (by cases op <;> rfl) line
  cases negated : op.negated with
  | false =>
      rw [negated, if_neg (by simp)] at means
      refine Translates.expresses
        ⟨applied, ⟨second.script.enclosing, second.script.slots,
          second.script.heapSlots⟩, ?_⟩ rfl
      rw [List.append_assoc]
      exact means
  | true =>
      rw [negated, if_pos rfl] at means
      refine Translates.expresses ⟨applied.emit rfl rfl line,
        ⟨second.script.enclosing, second.script.slots, second.script.heapSlots⟩,
        ?_⟩ rfl
      rw [List.append_assoc, List.append_assoc]
      exact means

theorem Translates.call {callee arguments : List Emission}
    {values : Nat → Machine → Evaluation (List Value)} {count : Nat}
    (few : count ≤ 255)
    (first : Translates held callee nest later meaning onTop)
    (second : Translates (held ++ callee) arguments later last values
      List.reverse)
    (counted : ∀ bound world {arguments after},
      values bound world = .value arguments after → arguments.length = count)
    (line : UInt32) :
    Expresses held nest (last.emit .call [UInt8.ofNat count] line)
      fun bound world =>
          (meaning bound world).andThen fun function afterCallee =>
        (values bound afterCallee).andThen fun arguments afterArguments =>
          function.apply arguments afterArguments := by
  have both := first.toLowers.trans second.toLowers
  refine Translates.expresses ⟨both.emit rfl rfl line,
    ⟨second.script.enclosing, second.script.slots, second.script.heapSlots⟩, ?_⟩
      rfl
  rw [List.append_assoc]
  exact (first.means.mono second.grows.pools).call few second.means counted

/-- An assignment to an identifier writes a global. -/
theorem Translates.assign
    (translates : Translates held new nest later meaning onTop)
    {name : String}
    (identifier : isIdentifier name)
    {target : StoreTarget}
    (targeted : later.storeTarget name line = .ok (target, last)) :
    Expresses held nest ((last.emitStore target line).emitStatementNil line)
      fun bound world => (meaning bound world).andThen fun result after =>
        .value .nil
          { after with globals := after.globals.insert name result } := by
  unfold Nest.storeTarget at targeted
  rw [translates.script.resolve identifier, Outcome.ok_bind] at targeted
  simp only [translates.script.enclosing, List.isEmpty_nil, if_true] at targeted
  obtain ⟨⟨index, named⟩, indexed, result⟩ := Outcome.bind_eq_ok.1 targeted
  cases result
  obtain ⟨kept, present⟩ := translates.nameIndex indexed
  refine (kept.emit ⟨.storeGlobal, [index]⟩ rfl rfl line
    (kept.means.assign present)).statementNil
    ?_ line
  intro bound world
  cases meaning bound world <;> rfl

section Jumps

variable {afterCondition afterConsequence elsePatched afterAlternative afterBody
      : Nest} {decide chosen other repeated : Nat → Machine → Evaluation Value}

theorem Expresses.branch
    (condition : Expresses held nest afterCondition decide)
    (consequence : ∀ {inner},
      (afterCondition.emit .jumpIfFalse [255, 255] line).Ready inner →
      (afterCondition.emit .jumpIfFalse [255, 255] line).InScript →
      Expresses inner (afterCondition.emit .jumpIfFalse [255, 255] line)
        afterConsequence chosen)
    (elseLands : (afterConsequence.emit .jump [255, 255] line).patchJump
      afterCondition.offset line = .ok elsePatched)
    (alternative : ∀ {inner}, elsePatched.Ready inner → elsePatched.InScript →
      Expresses inner elsePatched afterAlternative other)
    (endLands : afterAlternative.patchJump afterConsequence.offset
      line = .ok last) :
    Expresses held nest last fun bound world =>
      (decide bound world).andThen fun decision decided =>
        if decision.isTruthy then chosen bound decided else
          other bound decided := by
  obtain ⟨conditionCode, conditionTranslates, _⟩ := condition
  have conditionScript := conditionTranslates.script
  have jumped := conditionTranslates.toLowers.emit
    (show [255, 255].length = Opcode.jumpIfFalse.operandCount from rfl) rfl line
  obtain ⟨consequenceCode, consequenceTranslates, _⟩ :=
    consequence jumped.toReady
      ⟨conditionScript.enclosing, conditionScript.slots,
        conditionScript.heapSlots⟩
  obtain ⟨chooses, consequenceSmall, elseGrows⟩ :=
    conditionTranslates.toLowers.throughConsequence
      consequenceTranslates.toLowers elseLands
  have jumpedScript : (afterConsequence.emit .jump [255, 255] line).InScript :=
    ⟨consequenceTranslates.script.enclosing, consequenceTranslates.script.slots,
      consequenceTranslates.script.heapSlots⟩
  have elseScript := jumpedScript.patchJump elseLands
  obtain ⟨alternativeCode, alternativeTranslates, _⟩ :=
    alternative chooses.toReady elseScript
  obtain ⟨finished, alternativeSmall, endGrows, fixed⟩ :=
    chooses.throughAlternative
    alternativeTranslates.toLowers consequenceTranslates.toReady.offset endLands
  have consequenceGrows : afterConsequence.current.Grows last.current :=
    elseGrows.trans (alternativeTranslates.grows.trans endGrows)
  have conditionGrows : afterCondition.current.Grows last.current :=
    (Draft.alike_emit _ _ _ _).grows.trans
      (consequenceTranslates.grows.trans consequenceGrows)
  refine Translates.expresses ⟨finished,
    alternativeTranslates.script.patchJump endLands, ?_⟩ fixed
  exact (conditionTranslates.means.mono conditionGrows.pools).branch
    (consequenceTranslates.means.mono consequenceGrows.pools)
    (alternativeTranslates.means.mono endGrows.pools) consequenceSmall
      alternativeSmall

theorem Expresses.loop {looped : Draft}
    {nils : StatementNils}
    (ready : nest.Ready held)
    (condition : Expresses held nest afterCondition decide)
    (body : ∀ {inner}, (afterCondition.emit .jumpIfFalse [255, 255] line).Ready
      inner → (afterCondition.emit .jumpIfFalse [255, 255] line).InScript →
      Expresses inner (afterCondition.emit .jumpIfFalse [255, 255] line)
        afterBody repeated)
    (returns : (afterBody.discard nils line).current.emitLoop nest.offset
      line = .ok looped)
    (exitLands :
      ({ afterBody.discard nils line with current := looped } : Nest).patchJump
        afterCondition.offset line = .ok last) :
    ∃ new, Translates held new nest last (fun bound world =>
      Evaluation.iterate (decide bound) (repeated bound) bound world)
        dropped := by
  obtain ⟨conditionCode, conditionTranslates, _⟩ := condition
  have conditionScript := conditionTranslates.script
  have jumped := conditionTranslates.toLowers.emit
    (show [255, 255].length = Opcode.jumpIfFalse.operandCount from rfl) rfl line
  obtain ⟨bodyCode, bodyTranslates⟩ := (body jumped.toReady
    ⟨conditionScript.enclosing, conditionScript.slots,
      conditionScript.heapSlots⟩).discard nils line
  obtain ⟨finished, small, bodyGrows⟩ :=
    conditionTranslates.toLowers.throughLoop ready bodyTranslates.toLowers
      returns exitLands
  have conditionGrows : afterCondition.current.Grows last.current :=
    (Draft.alike_emit _ _ _ _).grows.trans
      (bodyTranslates.grows.trans bodyGrows)
  have loopedScript :
      ({ afterBody.discard nils line with current := looped } :
        Nest).InScript := by
    rw [Draft.emitLoop_eq returns]
    exact ⟨bodyTranslates.script.enclosing, bodyTranslates.script.slots,
      bodyTranslates.script.heapSlots⟩
  exact ⟨_, finished, loopedScript.patchJump exitLands,
    (conditionTranslates.means.mono conditionGrows.pools).loop
    (bodyTranslates.means.mono bodyGrows.pools) small⟩

end Jumps

end Nest

theorem length_of_evaluateArguments {bound : Nat}
    {arguments : List Expr} {world after : Machine} {values : List Value}
    (evaluated : evaluateArguments bound arguments world =
      .value values after) :
    values.length = arguments.length := by
  induction arguments generalizing world values with
  | nil =>
      simp only [evaluateArguments] at evaluated
      cases evaluated
      rfl
  | cons first others inner =>
      simp only [evaluateArguments] at evaluated
      cases firstEvaluated : first.evaluate bound world with
      | value value afterFirst =>
          simp only [firstEvaluated, Evaluation.andThen, Evaluation.withResult]
            at evaluated
          cases othersEvaluated : evaluateArguments bound others afterFirst with
          | value rest afterOthers =>
              simp only [othersEvaluated] at evaluated
              cases evaluated
              rw [List.length_cons, inner othersEvaluated, List.length_cons]
          | raised exception afterOthers => simp [othersEvaluated] at evaluated
          | unfinished => simp [othersEvaluated] at evaluated
      | raised exception afterFirst => simp [firstEvaluated, Evaluation.andThen]
          at evaluated
      | unfinished => simp [firstEvaluated, Evaluation.andThen] at evaluated

/-- A repetition gives nil. -/
theorem Evaluation.withResult_iterate
    (condition body : Machine → Evaluation Value)
    (count : Nat) (world : Machine) :
    (iterate condition body count world).withResult (fun _ => .nil) =
      iterate condition body count world := by
  induction count generalizing world with
  | zero => rfl
  | succ count inner =>
      simp only [iterate]
      cases condition world with
      | value decision decided =>
          simp only [andThen]
          split
          · cases body decided with
            | value result again => exact inner again
            | raised exception again => rfl
            | unfinished => rfl
          · rfl
      | raised exception decided => rfl
      | unfinished => rfl

open Nest

mutual

/-- The code of a simple expression means its evaluation. -/
theorem lowerExpr_expresses {nils : StatementNils}
    (expression : Expr)
    (simple : expression.isSimple)
    {held : List Emission} {nest later : Nest}
    (ready : nest.Ready held) (script : nest.InScript)
    (lowered : lowerExpr nils expression nest = .ok later) :
    Expresses held nest later fun bound world =>
      expression.evaluate bound world := by
  cases expression with
  | ident name position =>
      simp only [Expr.isSimple, Bool.and_eq_true, bne_iff_ne] at simple
      simp only [lowerExpr] at lowered
      simp only [Expr.evaluate]
      exact ready.global script simple.1 simple.2 lowered
  | literal literal position =>
      simp only [Expr.isSimple] at simple
      simp only [lowerExpr] at lowered
      obtain ⟨value, valueEq⟩ := Option.isSome_iff_exists.1 simple
      simp only [Expr.evaluate, valueEq]
      exact ready.literalValue script valueEq lowered
  | binary op left right position =>
      simp only [Expr.isSimple, Bool.and_eq_true] at simple
      obtain ⟨afterLeft, afterRight, leftLowered, rightLowered, rfl⟩ :=
        Lowered.binary lowered
      obtain ⟨leftCode, leftTranslates, _⟩ :=
        lowerExpr_expresses left simple.1 ready script leftLowered
      obtain ⟨rightCode, rightTranslates, _⟩ :=
        lowerExpr_expresses right simple.2 leftTranslates.toReady
          leftTranslates.script rightLowered
      simp only [Expr.evaluate]
      exact leftTranslates.binary op rightTranslates position.debugLine
  | unary op operand position =>
      simp only [Expr.isSimple] at simple
      obtain ⟨afterOperand, operandLowered, rfl⟩ := Lowered.unary lowered
      obtain ⟨code, translates, _⟩ :=
        lowerExpr_expresses operand simple ready script operandLowered
      simp only [Expr.evaluate]
      exact (translates.emit ⟨op.opcode, []⟩ (by cases op <;> rfl)
        (by cases op <;> rfl)
        position.debugLine (translates.means.unary op)).expresses rfl
  | call callee arguments position =>
      simp only [Expr.isSimple, Bool.and_eq_true] at simple
      obtain ⟨afterCallee, afterArguments, calleeLowered, argumentsLowered,
          few, rfl⟩ := Lowered.call lowered
      obtain ⟨calleeCode, calleeTranslates, _⟩ :=
        lowerExpr_expresses callee simple.1 ready script calleeLowered
      obtain ⟨argumentsCode, argumentsTranslate⟩ :=
        lowerArguments_translates arguments simple.2
        calleeTranslates.toReady calleeTranslates.script argumentsLowered
      simp only [Expr.evaluate]
      exact calleeTranslates.call few argumentsTranslate
        (fun _ _ => length_of_evaluateArguments) position.debugLine
  | assign target value position =>
      obtain ⟨name, place, afterValue, slot, targeted, rfl, valueLowered,
          found, rfl⟩ := Lowered.assign lowered
      simp only [Expr.isSimple, Bool.and_eq_true] at simple
      obtain ⟨code, translates, _⟩ :=
        lowerExpr_expresses value simple.2 ready script valueLowered
      simp only [Expr.evaluate]
      exact translates.assign simple.1 found
  | define name parameters body position => cases simple
  | block body =>
      simp only [lowerExpr] at lowered
      simp only [Expr.evaluate]
      exact lowerBlock_expresses body
        (by simpa only [Expr.isSimple] using simple) ready script lowered
  | branch condition consequence alternative position =>
      simp only [Expr.isSimple, Bool.and_eq_true] at simple
      obtain ⟨_, _, _, _, conditionLowered, consequenceLowered, elseLands,
        alternativeLowered, endLands⟩ := Lowered.branch lowered
      simp only [Expr.evaluate]
      exact (lowerExpr_expresses condition simple.1.1 ready script
        conditionLowered).branch
        (fun inside insideScript =>
          lowerBlock_expresses consequence simple.1.2 inside insideScript
            consequenceLowered)
        elseLands
        (fun inside insideScript =>
          lowerOptional_expresses alternative simple.2 inside insideScript
            alternativeLowered)
        endLands
  | loop condition body position =>
      simp only [Expr.isSimple, Bool.and_eq_true] at simple
      obtain ⟨_, _, _, _, conditionLowered, bodyLowered, returns, exitLands,
        rfl⟩ := Lowered.loop lowered
      have labelled := ready.label
      have labelledScript :
          ({ nest with current := nest.current.label } : Nest).InScript :=
        ⟨script.enclosing, script.slots, script.heapSlots⟩
      obtain ⟨loopCode, translates⟩ :=
        (lowerExpr_expresses condition simple.1 labelled labelledScript
          conditionLowered).loop
          labelled
          (fun inside insideScript =>
            lowerBlock_expresses body simple.2 inside insideScript bodyLowered)
          returns exitLands
      have unlabelled : Translates held loopCode nest _ _ dropped :=
        ⟨translates.toLowers.fromLabel, translates.script, translates.means⟩
      simp only [Expr.evaluate]
      exact unlabelled.statementNil
        (fun _ _ => Evaluation.withResult_iterate _ _ _ _) position.debugLine
  | attempt body clauses position => cases simple
  | perform effect payload position => cases simple

theorem lowerOptional_expresses {nils : StatementNils}
    (expression : Option Expr)
    (simple : isSimpleOptional expression)
    {line : UInt32} {held : List Emission} {nest later : Nest}
    (ready : nest.Ready held) (script : nest.InScript)
    (lowered : lowerOptional nils expression line nest = .ok later) :
    Expresses held nest later fun bound world =>
      evaluateOptional bound expression world := by
  cases expression with
  | some expression =>
      simp only [lowerOptional] at lowered
      simp only [evaluateOptional]
      exact lowerExpr_expresses expression
        (by simpa only [isSimpleOptional] using simple) ready script lowered
  | none =>
      simp only [lowerOptional] at lowered
      cases lowered
      simp only [evaluateOptional]
      exact ((ready.translates script Value.nil dropped rfl).emit ⟨.pushNil, []⟩
        rfl rfl line
        means_pushNil).expresses rfl

theorem lowerBlock_expresses {nils : StatementNils}
    (block : Block) (simple : block.isSimple)
    {held : List Emission} {nest later : Nest}
    (ready : nest.Ready held) (script : nest.InScript)
    (lowered : lowerBlock nils block nest = .ok later) :
    Expresses held nest later fun bound world =>
      block.evaluate bound world := by
  obtain ⟨expressions, position⟩ := block
  simp only [Block.isSimple] at simple
  simp only [Block.evaluate]
  rcases Lowered.block lowered with ⟨rfl, rfl⟩ | ⟨some, rest⟩
  · simp only [evaluateSequence]
    exact (ready.translates script Value.nil dropped rfl).statementNil
      (fun _ _ => rfl) position.debugLine
  · exact lowerSequence_expresses expressions some simple ready script rest

theorem lowerSequence_expresses {nils : StatementNils}
    (expressions : List Expr) (some : expressions ≠ [])
    (simple : areSimple expressions)
    {held : List Emission} {nest later : Nest}
    (ready : nest.Ready held) (script : nest.InScript)
    (lowered : lowerSequence nils expressions nest = .ok later) :
    Expresses held nest later fun bound world =>
      evaluateSequence bound expressions world := by
  cases expressions with
  | nil => exact (some rfl).elim
  | cons first others =>
      simp only [areSimple, Bool.and_eq_true] at simple
      simp only [evaluateSequence]
      obtain ⟨afterFirst, firstLowered, rest⟩ := Lowered.sequence lowered
      have firstExpresses :=
        lowerExpr_expresses first simple.1 ready script firstLowered
      rcases rest with ⟨rfl, rfl⟩ | ⟨more, rest⟩
      · have same (bound : Nat) (world : Machine) :
            (first.evaluate bound world).andThen Evaluation.value =
              first.evaluate bound world := by
          cases first.evaluate bound world <;> rfl
        simp only [List.isEmpty_nil, if_true, same]
        exact firstExpresses
      · obtain ⟨code, translates⟩ :=
          firstExpresses.discard nils first.position.debugLine
        simp only [List.isEmpty_eq_false_iff.2 more]
        exact translates.then
          (lowerSequence_expresses others more simple.2 translates.toReady
          translates.script rest)

/-- The code of simple arguments means their evaluation; the last one is on
top. -/
theorem lowerArguments_translates {nils : StatementNils}
    (arguments : List Expr)
    (simple : areSimple arguments)
    {held : List Emission} {nest later : Nest}
    (ready : nest.Ready held) (script : nest.InScript)
    (lowered : lowerArguments nils arguments nest = .ok later) :
    ∃ new, Translates held new nest later
      (fun bound world => evaluateArguments bound arguments world)
        List.reverse := by
  cases arguments with
  | nil =>
      cases lowered
      simp only [evaluateArguments]
      exact ⟨[], ready.translates script [] List.reverse rfl⟩
  | cons first others =>
      simp only [areSimple, Bool.and_eq_true] at simple
      obtain ⟨afterFirst, firstLowered, rest⟩ := Lowered.arguments lowered
      obtain ⟨code, translates, _⟩ :=
        lowerExpr_expresses first simple.1 ready script firstLowered
      obtain ⟨othersCode, othersTranslate⟩ :=
        lowerArguments_translates others simple.2 translates.toReady
          translates.script rest
      simp only [evaluateArguments]
      exact ⟨_, translates.toLowers.trans othersTranslate.toLowers,
        othersTranslate.script,
        (translates.means.mono othersTranslate.grows.pools).argument
          othersTranslate.means⟩

end

/-! ## Programs -/

/-- The code of a simple program means its evaluation and ends in a return. -/
structure Template.Computes (script : Template) (program : Block) : Prop where
  captures : script.capturesInner = []
  heapSlots : script.heapSlots = []
  means : ∃ new, script.code.toList = assemble [] (new ++ [⟨.return, []⟩]) ∧
    Means script.pools new
      (fun bound world => program.evaluate bound world) onTop

theorem Block.compileWith_computes {nils : StatementNils}
    {program : Block} {script : Template}
    (simple : program.isSimple)
    (compiled : program.compileWith nils = .ok script) :
    script.Computes program := by
  have captures := (Block.compileWith_sound compiled).2.1
  obtain ⟨draft, lowered, started, bodyLowered, rfl⟩ := Lowered.program compiled
  obtain ⟨sound, holds, _, draftCaptures⟩ := Draft.start_spec started
  have ready : (⟨draft, [], 0⟩ : Nest).Ready [] :=
    ⟨⟨sound, draftCaptures⟩, holds⟩
  have script : (⟨draft, [], 0⟩ : Nest).InScript := by
    cases started
    exact ⟨rfl, rfl, rfl⟩
  obtain ⟨new, translates, _⟩ :=
    lowerBlock_expresses program simple ready script bodyLowered
  have returned : (lowered.emitReturn program.position.debugLine).current.Holds
      (new ++ [⟨.return, []⟩]) :=
    translates.holds.emit_plain rfl rfl _
  have heapSlots :
      (lowered.emitReturn program.position.debugLine).current.heapSlots = [] :=
    translates.script.heapSlots
  exact ⟨captures, heapSlots, new, heapSlots ▸ returned.bytes, translates.means⟩

namespace Machine

/-- The run ended because an operand stack was full, or because no frame could
be opened. -/
def Ending.Overflowed (limits : Limits) (ending : Ending) : Prop :=
  (∃ capacity, ending.result = .error (.fault (.stackOverflow capacity))) ∨
    limits.maxFrames = 0 ∧ ending.result = .error (.fault (.frameOverflow 0))

/-- The run ended as an evaluation did, with the machine as the world was
afterwards. The exception of a run also tells the calls that were live. -/
def Ending.Matches (ending : Ending) : Evaluation Value → Prop
  | .value result world => ending = ⟨.ok result, world⟩
  | .raised exception world =>
      ∃ raised, ending = ⟨.error (.exception raised), world⟩ ∧
        raised.kind = exception.kind ∧
        raised.message = exception.message
  | .unfinished => False

variable {script : Template} {program : Block} {limits : Limits}
    {outlet : Outlet}

/-- A script is loaded into a frame that takes one identity and nothing else, or
there is no room for any frame. -/
theorem load_fresh
    (captures : script.capturesInner = [])
    (heapSlots : script.heapSlots = [])
    (limits : Limits) (outlet : Outlet) :
    (∃ frame, frame.closure.template = script ∧ frame.link = none ∧
        (fresh limits outlet).load script =
          .running (((fresh limits outlet).take 1).standing frame 0 [])) ∨
      limits.maxFrames = 0 ∧ (fresh limits outlet).load script =
        .failed (.fault (.frameOverflow 0)) (fresh limits outlet) := by
  by_cases room : 0 < limits.maxFrames
  · refine .inl
      ⟨⟨⟨0, script, []⟩, [], Closure.initialSlots ⟨0, script, []⟩ [], 0, none⟩,
        rfl, rfl, ?_⟩
    have opens : ((fresh limits outlet).cleared.take 1).frames.length <
        ((fresh limits outlet).cleared.take 1).limits.maxFrames := room
    simp only [Machine.load, openFrame, opens, if_true, captures, heapSlots,
      List.zip_nil_left, placeCaptures, List.filter_nil, boxSlots]
    rfl
  · have none : limits.maxFrames = 0 := by omega
    refine .inr ⟨none, ?_⟩
    simp [Machine.load, openFrame, fresh, cleared, Machine.take, none,
      Machine.fail, Failure.withCalls]

/-- A return with one value on the operand stack ends the run of the script. -/
theorem step_return {frame : Frame} {pools : Pools}
    {before after : List Emission} {world : Machine} {result : Value}
    (contains : frame.Contains pools before [⟨.return, []⟩] after)
    (calm : world.Calm) :
    (world.standing frame (totalSize before) [result]).step =
      .finished result world := by
  have same : ({ world with frames := [], handlers := [] } : Machine) = world :=
    calm.cleared_within frame
  have returns :
      (world.standing frame (totalSize (before ++ [⟨.return, []⟩]))
        [result]).execute
        ⟨totalSize before, .return, []⟩ = .ok (.finished result world) := by
    rw [← same]
    simp [Machine.execute, Machine.returnValue, standing, within, Machine.top,
      contains.unlinked]
  simp only [Machine.step, contains.fetch rfl rfl world [result], returns]

/-- The run of a loaded simple program comes to what its evaluation comes to. -/
theorem run_of_computes {frame : Frame} {world : Machine}
    (computes : script.Computes program)
    (runs : frame.closure.template = script)
    (unlinked : frame.link = none)
    (calm : world.Calm) (bound : Nat) :
    (world.standing frame 0 []).Overflows ∨
      program.evaluate bound world = .unfinished ∧
      (world.standing frame 0 []).run bound = none ∨
      ∃ count ending, (world.standing frame 0 []).run count = some ending ∧
        ending.Matches (program.evaluate bound world) := by
  obtain ⟨new, code, means⟩ := computes.means
  have templateEq : frame.template = script := runs
  have contains : frame.Contains script.pools []
      (new ++ [⟨.return, []⟩]) [] := by
    refine ⟨unlinked, templateEq ▸ .refl _, ?_⟩
    rw [templateEq, computes.heapSlots, List.append_nil]
    exact code
  have noValues : ∀ value ∈ ([] : List Value), value.Plain := by simp
  rcases means.mirrors bound contains.left calm noValues with overflows | comes
  · exact .inl overflows
  refine .inr ?_
  cases evaluated : program.evaluate bound world with
  | value result after =>
      rw [evaluated] at comes
      obtain ⟨afterCalm, _, count, reaches⟩ := comes
      have returns :
          (after.standing frame (totalSize ([] ++ new)) [result]).step =
          .finished result after :=
        step_return contains.right afterCalm
      refine .inr ⟨count + 1, ⟨.ok result, after⟩,
        (run_of_reached reaches 1).trans ?_, rfl⟩
      simp only [List.append_nil, Machine.run, returns]
  | raised exception after =>
      rw [evaluated] at comes
      obtain ⟨count, calls, ends⟩ := comes
      exact .inr ⟨count, _, ends, _, rfl, rfl, rfl⟩
  | unfinished =>
      rw [evaluated] at comes
      obtain ⟨later, lasts⟩ := comes
      exact .inl ⟨rfl, run_eq_none_of_reached lasts⟩

/-- A compiled simple program, run on a fresh machine, ends as its evaluation
does, with the same value or the same exception, and with the same globals,
methods and output; and its evaluation ends if it does. Instead its operand
stack may be full, or no frame may be open. The world of the evaluation is the
fresh machine without the identity that the script itself takes. -/
theorem simple_programs_run_as_they_evaluate
    (simple : program.isSimple)
    (compiled : program.compile = .ok script)
    (limits : Limits) (outlet : Outlet) :
    (∀ bound, program.evaluate bound ((fresh limits outlet).take 1) ≠
        .unfinished →
      ∃ count ending, (fresh limits outlet).interpret count script =
          some ending ∧
        (ending.Overflowed limits ∨
          ending.Matches
            (program.evaluate bound ((fresh limits outlet).take 1)))) ∧
    ∀ count ending, (fresh limits outlet).interpret count script = some ending →
      ending.Overflowed limits ∨
        ∃ bound, ending.Matches
          (program.evaluate bound ((fresh limits outlet).take 1)) := by
  have computes := Block.compileWith_computes simple compiled
  rcases load_fresh computes.captures computes.heapSlots limits outlet with
    ⟨frame, runs, unlinked, loads⟩ | ⟨noFrames, fails⟩
  · have comes := run_of_computes computes runs unlinked
      ((calm_fresh limits outlet).take 1)
    simp only [Machine.interpret, loads]
    constructor
    · intro bound finished
      rcases comes bound
        with ⟨count, capacity, final, ends⟩ | ⟨unfinished, _⟩ | ⟨count, ending,
          ends, matches_⟩
      · exact ⟨count, _, ends, .inl (.inl ⟨capacity, rfl⟩)⟩
      · exact (finished unfinished).elim
      · exact ⟨count, ending, ends, .inr matches_⟩
    · -- A run of some count of steps is not cut short by an evaluation with so
      -- many repetitions.
      intro count ending ended
      rcases comes count
        with ⟨more, capacity, final, ends⟩ | ⟨_, lasts⟩ | ⟨more, other,
          ends, matches_⟩
      · obtain rfl := run_unique ended ends
        exact .inl (.inl ⟨capacity, rfl⟩)
      · cases ended.symm.trans lasts
      · obtain rfl := run_unique ended ends
        exact .inr ⟨count, matches_⟩
  · have overflowed :
        (⟨.error (.fault (.frameOverflow 0)), fresh limits outlet⟩ :
          Ending).Overflowed
        limits := .inr ⟨noFrames, rfl⟩
    simp only [Machine.interpret, fails]
    refine ⟨fun _ _ => ⟨0, _, rfl, .inl overflowed⟩, ?_⟩
    rintro _ _ ⟨⟩
    exact .inl overflowed

/-- Whether a source text writes a simple program that runs to an integer on a
fresh machine. -/
def runsTo (source : String) (count : Nat) (number : Int64) : Bool :=
  match parseSource source with
  | .error _ => false
  | .ok program =>
      match program.compile with
      | .error _ => false
      | .ok script =>
          match (fresh .standard (.collecting "")).interpret count script with
          | some ⟨.ok (.int result), _⟩ => program.isSimple && result == number
          | _ => false

theorem exists_of_runsTo {source : String} {count : Nat} {number : Int64}
    (runs : runsTo source count number) :
    ∃ (program : Block) (script : Template) (final : Machine),
      program.isSimple ∧ program.compile = .ok script ∧
      (fresh .standard (.collecting "")).interpret count script =
        some ⟨.ok (.int number), final⟩ := by
  unfold runsTo at runs
  split at runs
  · cases runs
  next program _ =>
    split at runs
    · cases runs
    next script compiled =>
      split at runs
      next result final ended =>
        simp only [Bool.and_eq_true, beq_iff_eq] at runs
        exact ⟨program, script, final, runs.1, compiled, runs.2 ▸ ended⟩
      · cases runs

/-- A repetition that adds up the first numbers evaluates to what it runs to. -/
theorem sum_of_loop_evaluates :
    ∃ (program : Block) (script : Template) (bound : Nat) (world : Machine),
      program.isSimple ∧ program.compile = .ok script ∧
      program.evaluate bound ((fresh .standard (.collecting "")).take 1) =
        .value (.int 6) world := by
  obtain ⟨program, script, final, simple, compiled, ended⟩ :=
    exists_of_runsTo
      (show runsTo "x = 0; s = 0; while x < 3 { x = x + 1; s = s + x }; s" 100
        6 by
      decide +kernel)
  rcases (simple_programs_run_as_they_evaluate simple compiled _ _).2
      _ _ ended with
    (⟨_, impossible⟩ | ⟨_, impossible⟩) | ⟨bound, matches_⟩
  · cases impossible
  · cases impossible
  · cases evaluated :
      program.evaluate bound ((fresh .standard (.collecting "")).take 1) with
    | value result world =>
        rw [evaluated] at matches_
        cases matches_
        exact ⟨program, script, bound, final, simple, compiled, evaluated⟩
    | raised exception world =>
        rw [evaluated] at matches_
        obtain ⟨_, impossible, _⟩ := matches_
        cases impossible
    | unfinished =>
        rw [evaluated] at matches_
        exact matches_.elim

end Machine

end EffectScript
