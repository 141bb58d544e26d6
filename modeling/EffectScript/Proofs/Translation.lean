import EffectScript.Proofs.EvaluationRuns

/-!
# The meaning of code

Emissions *mean* an evaluation when, wherever they stand in the code of a
running frame, running them mirrors the evaluation and leaves its result on the
operand stack. The meanings of larger code come from those of its parts: parts
that follow each other, parts around jumps, and parts that are repeated.
-/

namespace EffectScript

open Machine

/-- The frame answers no effect, and emissions that refer to the pools stand in
its code between others. -/
structure Frame.Contains
    (frame : Frame) (pools : Pools)
    (before new after : List Emission) : Prop where
  unlinked : frame.link = none
  pools : pools.Extends frame.template.pools
  code : frame.template.code.toList =
    assemble frame.template.heapSlots (before ++ (new ++ after))

namespace Frame.Contains

variable {frame : Frame} {pools fewer : Pools}
    {before first second after : List Emission}

theorem left (contains : frame.Contains pools before (first ++ second) after) :
    frame.Contains pools before first (second ++ after) :=
  ⟨contains.unlinked, contains.pools, by simpa using contains.code⟩

theorem right (contains : frame.Contains pools before (first ++ second) after) :
    frame.Contains pools (before ++ first) second after :=
  ⟨contains.unlinked, contains.pools, by simpa using contains.code⟩

theorem mono
    (contains : frame.Contains pools before first after)
    (grows : fewer.Extends pools) :
    frame.Contains fewer before first after :=
  ⟨contains.unlinked, grows.trans contains.pools, contains.code⟩

/-- The next step executes the emission at the place of the frame. -/
theorem fetch {emission : Emission}
    (contains : frame.Contains pools before (emission :: second) after)
    (complete : emission.Complete)
    (noAccess : emission.opcode.promoted? = none)
    (world : Machine) (stack : List Value) :
    (world.standing frame (totalSize before) stack).fetch =
      .ok (⟨totalSize before, emission.opcode, emission.operands⟩,
        world.standing frame (totalSize (before ++ [emission])) stack) := by
  have decodes := decode_assemble contains.code complete
  rw [Emission.placedAt, Emission.written_of_promoted?_eq_none noAccess]
    at decodes
  have fetched := @fetch_eq (world.standing frame (totalSize before) stack)
    { frame with ip := totalSize before, stack := stack } [] _ rfl decodes
  have next : totalSize (before ++ [emission]) =
      totalSize before + (emission.opcode.operandCount + 1) := by
    rw [totalSize_append, totalSize_cons, totalSize_nil, Emission.size,
      complete, Nat.add_zero]
  rw [fetched, next]
  rfl

end Frame.Contains

/-- Wherever the emissions stand, running them mirrors the meaning, and its
result is left on the operand stack. -/
structure Means {α : Type}
    (pools : Pools) (new : List Emission)
    (meaning : Nat → Machine → Evaluation α)
    (left : α → List Value) : Prop where
  mirrors {frame : Frame} {before after : List Emission} {world : Machine}
    {stack : List Value}
    (bound : Nat) (contains : frame.Contains pools before new after)
      (calm : world.Calm)
    (plain : ∀ value ∈ stack, value.Plain) :
    Mirrors frame (totalSize (before ++ new)) (left · ++ stack) bound
      (world.standing frame (totalSize before) stack) (meaning bound world)

/-- A value on top of the operand stack. -/
abbrev onTop (value : Value) : List Value := [value]

/-- Nothing on the operand stack. -/
abbrev dropped {α : Type} (_ : α) : List Value := []

namespace Means

variable {α β : Type} {pools more : Pools} {new others : List Emission}
  {meaning : Nat → Machine → Evaluation α} {left : α → List Value}

theorem mono
    (means : Means pools new meaning left)
    (grows : pools.Extends more) :
    Means more new meaning left :=
  ⟨fun bound contains => means.mirrors bound (contains.mono grows)⟩

end Means

namespace Frame.Contains

variable {frame : Frame} {pools : Pools} {before after : List Emission}
    {world : Machine} {stack rest : List Value} {emission : Emission}
    {evaluation : Evaluation Value}

/-- An emission whose operation agrees with an evaluation mirrors it. -/
theorem operates
    (contains : frame.Contains pools before [emission] after)
    (complete : emission.Complete)
    (noAccess : emission.opcode.promoted? = none)
    (calm : world.Calm)
    (plain : ∀ value ∈ rest, value.Plain)
    {computation : Except Failure Machine}
    (executes :
      (world.standing frame (totalSize (before ++ [emission])) stack).execute
        ⟨totalSize before, emission.opcode, emission.operands⟩ = computation >>=
          fun next => pure (.onward next))
    (agrees : world.Agrees
      { frame with ip := totalSize (before ++ [emission]), stack := rest }
        evaluation computation)
    (count : Nat) :
    Mirrors frame (totalSize (before ++ [emission])) (· :: rest) count
      (world.standing frame (totalSize before) stack) evaluation :=
  agrees.mirrors calm plain
    (contains.fetch complete noAccess world stack) executes

/-- An emission that always goes on leads to the machine that its operation
gives. -/
theorem step {next : Machine}
    (contains : frame.Contains pools before [emission] after)
    (complete : emission.Complete)
    (noAccess : emission.opcode.promoted? = none)
    (executes :
      (world.standing frame (totalSize (before ++ [emission])) stack).execute
        ⟨totalSize before, emission.opcode, emission.operands⟩ =
          .ok (.onward next)) :
    (world.standing frame (totalSize before) stack).step = .running next := by
  simp only [Machine.step,
    contains.fetch complete noAccess world stack, executes]

end Frame.Contains

/-! ## Reads -/

section Reads

variable {pools : Pools}

theorem Pools.Extends.name {more : Pools}
    (extends_ : pools.Extends more)
    {index : Nat} {name : String}
    (held : pools.names[index]? = some name) :
    more.names[index]? = some name := by
  obtain ⟨rest, restEq⟩ := extends_.names
  have present : index < pools.names.length :=
    (List.getElem?_eq_some_iff.1 held).1
  rw [← restEq, List.getElem?_append_left present, held]

theorem operandName_of_extends {template : Template}
    {index : UInt8} {name : String}
    (extends_ : pools.Extends template.pools)
    (present : pools.names[index.toNat]? = some name) :
    operandName template index = .ok name := by
  have named : template.name? index = some name := extends_.name present
  simp only [operandName, named]

/-- The meaning of an operation that pushes a value. -/
theorem means_push
    (emission : Emission)
    {value : Value}
    (complete : emission.Complete)
    (noAccess : emission.opcode.promoted? = none)
    (plain : value.Plain)
    (executes : ∀ (machine : Machine) (frame : Frame) (place : Nat),
      machine.frames = [frame] → pools.Extends frame.template.pools →
      machine.execute ⟨place, emission.opcode, emission.operands⟩ =
        machine.push value >>= fun next => pure (.onward next)) :
    Means pools [emission] (fun _ world => .value value world) onTop := by
  refine ⟨fun {frame before after world stack} bound contains calm
    stackPlain => ?_⟩
  exact contains.operates complete noAccess calm stackPlain
    (executes _ _ _ rfl contains.pools) (push_agrees calm plain) bound

theorem means_pushNil :
    Means pools [⟨.pushNil, []⟩] (fun _ world => .value .nil world) onTop := by
  refine means_push ⟨.pushNil, []⟩ rfl rfl .nil ?_
  intro machine frame place frames _
  simp only [Machine.execute, top_eq frames, Outcome.ok_bind]

theorem means_pushBool (truth : Bool) :
    Means pools [⟨if truth then .pushTrue else .pushFalse, []⟩]
      (fun _ world => .value (.bool truth) world) onTop := by
  refine means_push ⟨if truth then .pushTrue else .pushFalse, []⟩ ?_ ?_
    (.bool truth) ?_
  · cases truth <;> rfl
  · cases truth <;> rfl
  · intro machine frame place frames _
    cases truth <;> simp only [Machine.execute, top_eq frames,
      Outcome.ok_bind] <;> rfl

/-- A constant means its value. -/
theorem means_constant {index : UInt8} {value : Value}
    (plain : value.Plain)
    (present : pools.constants[index.toNat]? = some value) :
    Means pools [⟨.loadConst, [index]⟩]
      (fun _ world => .value value world) onTop := by
  refine means_push ⟨.loadConst, [index]⟩ rfl rfl plain ?_
  intro machine frame place frames extends_
  have found : frame.template.constant? index = some value :=
    extends_.constant present
  simp only [Machine.execute, top_eq frames, Outcome.ok_bind, Instruction.byte,
    Instruction.operand, List.getD_cons_zero, found]

/-- Reading a global means looking it up. -/
theorem means_global {index : UInt8} {name : String}
    (present : pools.names[index.toNat]? = some name) :
    Means pools [⟨.loadGlobal, [index]⟩]
      (fun _ world =>
        match world.globals.find? name with
        | some value => .value value world
        | none => .raised (Exception.undefinedName name) world) onTop := by
  refine ⟨fun {frame before after world stack} bound contains calm
    stackPlain => ?_⟩
  let fetched := world.standing frame
    (totalSize (before ++ [⟨.loadGlobal, [index]⟩])) stack
  have executes : fetched.execute ⟨totalSize before, .loadGlobal, [index]⟩ =
      (match world.globals.find? name with
        | some value => fetched.push value
        | none => .error (.exception (Exception.undefinedName name))) >>=
          fun next => pure (.onward next) := by
    have named : operandName frame.template index = .ok name :=
      operandName_of_extends contains.pools present
    simp only [Machine.execute, Instruction.byte, Instruction.operand,
      List.getD_cons_zero]
    change (operandName frame.template index >>= _) = _
    rw [named, Outcome.ok_bind]
    change (match world.globals.find? name with | some value => _ | none => _) =
      _
    cases world.globals.find? name <;> rfl
  refine contains.operates rfl rfl calm stackPlain executes ?_ bound
  cases found : world.globals.find? name with
  | some value => exact push_agrees calm (calm.find? found)
  | none => exact .inr ⟨rfl, rfl⟩

end Reads

/-! ## Results -/

namespace Means

variable {α β : Type} {pools : Pools} {first second : List Emission}
  {meaning : Nat → Machine → Evaluation Value} {left : β → List Value}

theorem nothing {result : β} (empty : left result = []) :
    Means pools [] (fun _ world => .value result world) left := by
  refine ⟨fun {frame before after world stack} bound contains calm plain => ?_⟩
  have start : (left result ++ stack) = stack := by rw [empty, List.nil_append]
  have arrived := @Mirrors.arrived world frame β (totalSize (before ++ []))
    bound (left · ++ stack) result calm (by rwa [start])
  rw [start, List.append_nil] at arrived
  rwa [List.append_nil]

/-- Code after code that leaves nothing. -/
theorem sequence {early : Nat → Machine → Evaluation α}
    {late : Nat → Machine → Evaluation β}
    (firstMeans : Means pools first early dropped)
    (secondMeans : Means pools second late left) :
    Means pools (first ++ second)
      (fun bound world => (early bound world).andThen fun _ after =>
        late bound after) left := by
  refine ⟨fun {frame before after world stack} bound contains calm plain => ?_⟩
  refine (firstMeans.mirrors bound contains.left calm plain).andThen ?_
  intro result world _ calm plain
  rw [← List.append_assoc]
  exact secondMeans.mirrors bound contains.right calm plain

/-- A pop throws the result away. -/
theorem pop (means : Means pools first meaning onTop) :
    Means pools (first ++ [⟨.pop, []⟩]) meaning dropped := by
  refine ⟨fun {frame before after world stack} bound contains calm plain => ?_⟩
  have same : (meaning bound world).withResult id = meaning bound world := by
    cases meaning bound world <;> rfl
  rw [← same]
  refine (means.mirrors bound contains.left calm plain).andThen ?_
  intro result world _ calm resultPlain
  rw [← List.append_assoc]
  have popped :
      (world.standing frame (totalSize (before ++ first))
        ([result] ++ stack)).step =
      .running
        (world.standing frame
          (totalSize (before ++ first ++ [⟨.pop, []⟩])) stack) :=
    contains.right.step rfl rfl rfl
  exact ((Mirrors.arrived calm plain).of_step popped).mono (Nat.le_succ bound)

/-- Nil on the operand stack is the result of what gives nil. -/
theorem pushNil
    (means : Means pools first meaning dropped)
    (givesNil : ∀ bound world, (meaning bound world).withResult
      (fun _ => .nil) = meaning bound world) :
    Means pools (first ++ [⟨.pushNil, []⟩]) meaning onTop := by
  refine ⟨fun {frame before after world stack} bound contains calm plain => ?_⟩
  rw [← givesNil]
  exact (means.sequence means_pushNil).mirrors bound contains calm plain

/-- Writing a global puts the result there. -/
theorem assign {index : UInt8} {name : String}
    (means : Means pools first meaning onTop)
    (present : pools.names[index.toNat]? = some name) :
    Means pools (first ++ [⟨.storeGlobal, [index]⟩])
      (fun bound world => (meaning bound world).andThen fun result after =>
        .value Value.nil { after
          with globals := after.globals.insert name result }) dropped := by
  refine ⟨fun {frame before after world stack} bound contains calm plain => ?_⟩
  refine (means.mirrors bound contains.left calm plain).andThen ?_
  intro result world _ calm resultPlain
  rw [← List.append_assoc]
  have executes :
      (world.standing frame
        (totalSize (before ++ first ++ [⟨.storeGlobal, [index]⟩]))
        ([result] ++ stack)).execute
          ⟨totalSize (before ++ first), .storeGlobal, [index]⟩ =
      .ok
        (.onward
          (({ world with globals := world.globals.insert name result } :
            Machine).standing
        frame (totalSize (before ++ first ++ [⟨.storeGlobal, [index]⟩]))
          stack)) := by
    have named : operandName frame.template index = .ok name :=
      operandName_of_extends contains.pools present
    simp only [Machine.execute, Instruction.byte, Instruction.operand,
      List.getD_cons_zero]
    change (operandName frame.template index >>= _) = _
    rw [named]
    rfl
  have assigned := calm.assign (resultPlain result (by simp)) name
  exact ((Mirrors.arrived assigned plain).of_step
    (contains.right.step rfl rfl executes)).mono (Nat.le_succ bound)

/-! ## Operators and calls -/

end Means

/-- The operation that an operator of the source applies before a negation. -/
def BinaryOp.operator : BinaryOp → Operator
  | .add => .add
  | .sub => .sub
  | .mul => .mul
  | .div => .div
  | .eq | .ne => .eq
  | .lt | .ge => .lt
  | .gt | .le => .gt

theorem BinaryOp.evaluate_eq
    (op : BinaryOp) (left right : Value) (world : Machine) :
    op.evaluate left right world =
      if op.negated then
        (op.operator.evaluate left right world).withResult Value.negated
      else op.operator.evaluate left right world := by
  cases op <;> rfl

namespace Means

variable {pools : Pools} {first second : List Emission}
  {meaning early late : Nat → Machine → Evaluation Value}

/-- An operation that takes two values applies its operator to them. -/
theorem operator
    (op : BinaryOp)
    (firstMeans : Means pools first early onTop)
    (secondMeans : Means pools second late onTop) :
    Means pools (first ++ (second ++ [⟨op.opcode, []⟩]))
      (fun bound world => (early bound world).andThen fun left afterLeft =>
        (late bound afterLeft).andThen fun right afterRight =>
          op.operator.evaluate left right afterRight) onTop := by
  refine ⟨fun {frame before after world stack} bound contains calm plain => ?_⟩
  refine (firstMeans.mirrors bound contains.left calm plain).andThen ?_
  intro left afterLeft _ calm leftPlain
  refine (secondMeans.mirrors bound contains.right.left calm leftPlain).andThen
    ?_
  intro right afterRight _ calm rightPlain
  rw [← List.append_assoc, ← List.append_assoc]
  refine contains.right.right.operates (by cases op <;> rfl)
    (by cases op <;> rfl) calm plain ?_
    (binaryOperator_agrees op.operator calm contains.unlinked
      (leftPlain left (by simp))
      (rightPlain right (by simp))) bound
  cases op <;> rfl

/-- The negation of a result. -/
theorem negated (means : Means pools first meaning onTop) :
    Means pools (first ++ [⟨.not, []⟩])
      (fun bound world => (meaning bound world).withResult Value.negated)
        onTop := by
  refine ⟨fun {frame before after world stack} bound contains calm plain => ?_⟩
  refine (means.mirrors bound contains.left calm plain).andThen ?_
  intro result afterResult _ calm resultPlain
  rw [← List.append_assoc]
  exact contains.right.operates rfl rfl calm plain rfl
    (push_agrees calm (.bool _)) bound

theorem binary
    (op : BinaryOp)
    (firstMeans : Means pools first early onTop)
    (secondMeans : Means pools second late onTop) :
    Means pools
      (first ++ (second ++ ⟨op.opcode, []⟩ :: if op.negated then
        [⟨.not, []⟩] else []))
      (fun bound world => (early bound world).andThen fun left afterLeft =>
        (late bound afterLeft).andThen fun right afterRight =>
          op.evaluate left right afterRight) onTop := by
  have applied := firstMeans.operator op secondMeans
  simp only [BinaryOp.evaluate_eq]
  cases op.negated with
  | false => exact applied
  | true =>
      have through := applied.negated
      simp only [List.append_assoc, List.singleton_append,
        Evaluation.withResult_andThen] at through
      exact through

theorem unary (op : UnaryOp) (means : Means pools first meaning onTop) :
    Means pools (first ++ [⟨op.opcode, []⟩])
      (fun bound world => (meaning bound world).andThen op.evaluate) onTop := by
  cases op with
  | not => exact means.negated
  | neg =>
      refine ⟨fun {frame before after world stack} bound contains calm
        plain => ?_⟩
      refine (means.mirrors bound contains.left calm plain).andThen ?_
      intro result afterResult _ calm resultPlain
      rw [← List.append_assoc]
      exact contains.right.operates rfl rfl calm plain rfl
        (negate_agrees calm contains.unlinked (resultPlain result (by simp)))
          bound

/-- One more argument before others. -/
theorem argument
    {others : Nat → Machine → Evaluation (List Value)}
    (firstMeans : Means pools first meaning onTop)
    (othersMean : Means pools second others List.reverse) :
    Means pools (first ++ second)
      (fun bound world => (meaning bound world).andThen fun value afterFirst =>
        (others bound afterFirst).withResult (value :: ·)) List.reverse := by
  refine ⟨fun {frame before after world stack} bound contains calm plain => ?_⟩
  refine (firstMeans.mirrors bound contains.left calm plain).andThen ?_
  intro value afterFirst _ calm valuePlain
  rw [← List.append_assoc]
  refine (othersMean.mirrors bound contains.right calm valuePlain).withResult ?_
  intro values
  simp

/-- A call applies the callee to its arguments. -/
theorem call
    {values : Nat → Machine → Evaluation (List Value)} {count : Nat}
    (few : count ≤ 255)
    (calleeMeans : Means pools first meaning onTop)
    (argumentsMean : Means pools second values List.reverse)
    (counted : ∀ bound world {arguments after}, values bound world =
      .value arguments after → arguments.length = count) :
    Means pools (first ++ (second ++ [⟨.call, [UInt8.ofNat count]⟩]))
      (fun bound world => (meaning bound world).andThen
          fun function afterCallee =>
        (values bound afterCallee).andThen fun arguments afterArguments =>
          function.apply arguments afterArguments) onTop := by
  refine ⟨fun {frame before after world stack} bound contains calm plain => ?_⟩
  refine (calleeMeans.mirrors bound contains.left calm plain).andThen ?_
  intro function afterCallee _ calm functionPlain
  refine (argumentsMean.mirrors bound contains.right.left calm
    functionPlain).andThen ?_
  intro arguments afterArguments evaluated calm argumentsPlain
  rw [← List.append_assoc, ← List.append_assoc]
  have countEq : (UInt8.ofNat count).toNat = arguments.length := by
    rw [counted bound afterCallee evaluated]
    exact UInt8.toNat_ofNat_of_lt' (Nat.lt_succ_of_le few)
  refine contains.right.right.operates rfl rfl calm plain ?_
    (call_agrees calm contains.unlinked (functionPlain function (by simp))
      fun value member => argumentsPlain value (by simp [member])) bound
  rw [← countEq]
  rfl

end Means

/-! ## Choices and repetitions -/

section Jumps

variable {frame : Frame} {pools : Pools} {before after : List Emission}
    {world : Machine} {stack : List Value} {distance goal : Nat}

theorem short_shortBytes
    (place : Nat) (opcode : Opcode) (small : distance ≤ 65535) :
    (⟨place, opcode, Instruction.shortBytes distance⟩ : Instruction).short =
      distance :=
  Instruction.bigEndian_shortBytes small

theorem totalSize_jump (opcode : Opcode) (distance : Nat) :
    totalSize [⟨opcode, Instruction.shortBytes distance⟩] = 3 := rfl

/-- A jump leads over a distance. -/
theorem Frame.Contains.jump
    (contains : frame.Contains pools before
      [⟨.jump, Instruction.shortBytes distance⟩] after)
    (small : distance ≤ 65535)
    (lands : goal = totalSize before + 3 + distance) :
    (world.standing frame (totalSize before) stack).step =
      .running (world.standing frame goal stack) := by
  refine contains.step rfl rfl ?_
  simp only [Machine.execute, short_shortBytes _ _ small,
    totalSize_append, lands]
  rfl

/-- A choice goes on behind it or leads over a distance. -/
theorem Frame.Contains.jumpIfFalse {decision : Value}
    (contains : frame.Contains pools before
      [⟨.jumpIfFalse, Instruction.shortBytes distance⟩] after)
    (small : distance ≤ 65535)
    (lands : goal = totalSize before + 3 + distance) :
    (world.standing frame (totalSize before) (decision :: stack)).step =
      .running (world.standing frame
        (if decision.isTruthy then
          totalSize (before ++
            [⟨.jumpIfFalse, Instruction.shortBytes distance⟩]) else goal)
        stack) := by
  refine contains.step rfl rfl ?_
  simp only [Machine.execute, short_shortBytes _ _ small, standing,
    top_eq (frames_within _ _), Outcome.ok_bind, Frame.pop,
    totalSize_append, lands]
  cases decision.isTruthy <;> rfl

/-- A repetition leads back over a distance. -/
theorem Frame.Contains.loop
    (contains : frame.Contains pools before
      [⟨.loop, Instruction.shortBytes distance⟩] after)
    (small : distance ≤ 65535)
    (lands : goal + distance = totalSize before + 3) :
    (world.standing frame (totalSize before) stack).step =
      .running (world.standing frame goal stack) := by
  have place :
      totalSize (before ++ [⟨.loop, Instruction.shortBytes distance⟩]) =
      goal + distance := by
    rw [totalSize_append, lands]
    rfl
  refine contains.step rfl rfl ?_
  simp only [Machine.execute, short_shortBytes _ _ small, standing,
    top_eq (frames_within _ _), Outcome.ok_bind, place, Nat.le_add_left,
    if_true, Nat.add_sub_cancel]
  rfl

end Jumps

namespace Means

variable {pools : Pools}
    {condition consequence alternative body : List Emission}
    {decide chosen other repeated : Nat → Machine → Evaluation Value}

/-- A choice between two ways. -/
theorem branch
    (conditionMeans : Means pools condition decide onTop)
    (consequenceMeans : Means pools consequence chosen onTop)
    (alternativeMeans : Means pools alternative other onTop)
    (consequenceSmall : totalSize consequence + 3 ≤ 65535)
    (alternativeSmall : totalSize alternative ≤ 65535) :
    Means pools
      (condition ++
        ([⟨.jumpIfFalse, Instruction.shortBytes (totalSize consequence + 3)⟩] ++
        (consequence ++
          ([⟨.jump, Instruction.shortBytes (totalSize alternative)⟩] ++
            alternative))))
      (fun bound world => (decide bound world).andThen fun decision decided =>
        if decision.isTruthy then chosen bound decided else other bound decided)
          onTop := by
  refine ⟨fun {frame before after world stack} bound contains calm plain => ?_⟩
  refine (conditionMeans.mirrors bound contains.left calm plain).andThen ?_
  intro decision decided _ calm decisionPlain
  have atConsequence := contains.right.right
  have atAlternative := atConsequence.right.right
  have decides := @Frame.Contains.jumpIfFalse frame pools _ _ decided stack
    _ _ decision contains.right.left consequenceSmall
    (show totalSize (before ++ condition ++
        [⟨.jumpIfFalse, Instruction.shortBytes (totalSize consequence + 3)⟩] ++
          consequence ++
        [⟨.jump, Instruction.shortBytes (totalSize alternative)⟩]) = _ by
      simp only [totalSize_append, totalSize_jump]
      omega)
  refine Mirrors.mono (Mirrors.of_step ?_ decides) (Nat.le_succ bound)
  cases decision.isTruthy with
  | true =>
      -- The consequence ends in a jump over the alternative.
      have same : (chosen bound decided).andThen Evaluation.value =
          chosen bound decided := by
        cases chosen bound decided <;> rfl
      rw [if_pos rfl, if_pos rfl, ← same]
      refine (consequenceMeans.mirrors bound atConsequence.left calm
        plain).andThen ?_
      intro result afterChosen _ calm resultPlain
      refine Mirrors.mono
        (Mirrors.of_step (Mirrors.arrived calm resultPlain) ?_)
          (Nat.le_succ bound)
      refine atConsequence.right.left.jump alternativeSmall ?_
      simp only [totalSize_append, totalSize_jump]
      omega
  | false =>
      rw [if_neg (by simp), if_neg (by simp)]
      have mirrors := alternativeMeans.mirrors bound atAlternative calm plain
      simpa only [List.append_assoc] using mirrors

/-- A body that is repeated while a condition holds. The induction is on how
often it may be repeated; a run that is not finished by then has taken a step
for every repetition. -/
theorem loop
    (conditionMeans : Means pools condition decide onTop)
    (bodyMeans : Means pools body repeated dropped)
    (small : totalSize condition + 3 + totalSize body + 3 ≤ 65535) :
    Means pools
      (condition ++
        ([⟨.jumpIfFalse, Instruction.shortBytes (totalSize body + 3)⟩] ++
        (body ++ [⟨.loop,
          Instruction.shortBytes
            (totalSize condition + 3 + totalSize body + 3)⟩])))
      (fun bound world => Evaluation.iterate (decide bound) (repeated bound)
        bound world) dropped := by
  refine ⟨fun {frame before after world stack} bound contains calm plain => ?_⟩
  have atBody := contains.right.right
  let goal := totalSize (before ++ (condition ++ ([⟨.jumpIfFalse,
    Instruction.shortBytes (totalSize body + 3)⟩] ++ (body ++ [⟨.loop,
      Instruction.shortBytes
        (totalSize condition + 3 + totalSize body + 3)⟩]))))
  suffices iterates : ∀ count ≤ bound, ∀ {world : Machine}, world.Calm →
      Mirrors frame goal (dropped · ++ stack) count
        (world.standing frame (totalSize before) stack)
        (Evaluation.iterate (decide bound) (repeated bound) count world) from
    iterates bound (Nat.le_refl bound) calm
  intro count within_
  induction count with
  | zero =>
      intro world calm
      exact .inr ⟨_, rfl⟩
  | succ count inner =>
      intro world calm
      have decides :=
        (conditionMeans.mirrors bound contains.left calm plain).mono within_
      refine decides.andThen ?_
      intro decision decided _ calm decisionPlain
      have jumps := @Frame.Contains.jumpIfFalse frame pools _ _ decided stack
        _ goal decision contains.right.left (by omega)
        (by
          simp only [goal, totalSize_append, totalSize_jump]
          omega)
      refine Mirrors.of_step ?_ jumps
      cases decision.isTruthy with
      | true =>
          rw [if_pos rfl, if_pos rfl]
          have repeats := (bodyMeans.mirrors bound atBody.left calm plain).mono
            (Nat.le_of_succ_le within_)
          refine repeats.andThen ?_
          intro result again _ calm _
          refine Mirrors.mono
            (Mirrors.of_step (inner (Nat.le_of_succ_le within_) calm) ?_)
            (Nat.le_succ count)
          refine atBody.right.loop small ?_
          simp only [totalSize_append, totalSize_jump]
          omega
      | false =>
          rw [if_neg (by simp), if_neg (by simp)]
          exact Mirrors.arrived calm plain

end Means

end EffectScript
