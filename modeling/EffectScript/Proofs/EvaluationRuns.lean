import EffectScript.Proofs.Effects
import EffectScript.Proofs.Evaluation

/-!
# Runs that mirror evaluations

A world becomes a running machine when a frame is put into it. A computation of
that machine *agrees* with an evaluation when it leaves the result on the
operand stack of the frame and the rest of the machine as the world is
afterwards, or fails with the exception that the evaluation raises. A run
*mirrors* an evaluation when its steps come to that. In either case the operand
stack may overflow instead.
-/

namespace EffectScript

/-- A value without closures in it. -/
abbrev Value.Plain (value : Value) : Prop :=
  value.Made fun _ => False

namespace Machine

/-- A world without live calls, handlers and closures. -/
structure Calm (world : Machine) : Prop where
  frames : world.frames = []
  handlers : world.handlers = []
  globals : ∀ entry ∈ world.globals, entry.2.Plain
  methods : ∀ entry ∈ world.methods, entry.2.Plain

/-- The machine that runs a frame in a world. -/
def within (world : Machine) (frame : Frame) : Machine :=
  { world with frames := [frame] }

/-- The machine that runs a frame in a world, at a place and with an operand
stack. -/
def standing
    (world : Machine) (frame : Frame) (place : Nat)
    (stack : List Value) : Machine :=
  world.within { frame with ip := place, stack := stack }

variable {world after : Machine} {frame : Frame} {value : Value}
    {stack : List Value}

@[simp]
theorem frames_within (world : Machine) (frame : Frame) :
    (world.within frame).frames = [frame] := rfl

theorem Calm.take (calm : world.Calm) (count : Nat) : (world.take count).Calm :=
  ⟨calm.frames, calm.handlers, calm.globals, calm.methods⟩

theorem Calm.assign (calm : world.Calm) (plain : value.Plain) (name : String) :
    ({ world with globals := world.globals.insert name value } :
      Machine).Calm := by
  refine ⟨calm.frames, calm.handlers, ?_, calm.methods⟩
  intro entry member
  rcases Dictionary.mem_insert member with rfl | old
  · exact plain
  · exact calm.globals entry old

theorem Calm.find?
    (calm : world.Calm)
    {name : String}
    (found : world.globals.find? name = some value) :
    value.Plain := by
  obtain ⟨entry, member, rfl⟩ := Dictionary.mem_of_find? found
  exact calm.globals entry member

theorem Calm.spare
    (calm : world.Calm)
    (spares : world.Spares Value.Plain after) : after.Calm where
  frames := spares.frames.trans calm.frames
  handlers := spares.handlers.trans calm.handlers
  globals := spares.globals ▸ calm.globals
  methods := spares.methods calm.methods

theorem calm_fresh (limits : Limits) (outlet : Outlet) :
    (Machine.fresh limits outlet).Calm := by
  obtain ⟨globals, methods⟩ := @fresh_native Value.Plain .builtin limits outlet
  exact ⟨rfl, rfl, globals, methods⟩

end Machine

/-! ## Native functions -/

section Within

variable {world : Machine} {frame : Frame}

@[simp]
theorem Machine.store_within (world : Machine) (frame : Frame) :
    (world.within frame).store = world.store := rfl

@[simp]
theorem Machine.methods_within (world : Machine) (frame : Frame) :
    (world.within frame).methods = world.methods := rfl

theorem Machine.overlooked_within (frame : Frame) :
    Machine.Overlooked (·.within frame) where
  store _ := rfl
  outlet _ := rfl
  methods _ := rfl
  take _ _ := rfl
  setOutlet _ _ := rfl
  setMethods _ _ := rfl

/-- Nothing can be resumed while no frame answers an effect. -/
theorem Machine.resume_within
    (calm : world.Calm)
    (unlinked : frame.link = none) :
    (world.within frame).resume = world.resume.map (·.within frame) := by
  simp [Machine.resume, Machine.within, unlinked, calm.frames, Except.map]

/-- A native function does not look at a frame that answers no effect. -/
theorem Builtin.call_within
    (builtin : Builtin) (arguments : List Value) (calm : world.Calm)
    (unlinked : frame.link = none) :
    builtin.call (world.within frame) arguments =
      (builtin.call world arguments).map fun outcome =>
        (outcome.1, outcome.2.within frame) :=
  Builtin.call_overlooked (Machine.overlooked_within frame)
    (Machine.resume_within calm unlinked) builtin arguments

end Within

/-- A native function leaves a calm world and gives a plain value. -/
theorem Builtin.call_calm {world after : Machine}
    {builtin : Builtin} {arguments : List Value} {result : Value}
    (calm : world.Calm)
    (plain : ∀ value ∈ arguments, value.Plain)
    (called : builtin.call world arguments = .ok (result, after)) :
    after.Calm ∧ result.Plain := by
  obtain ⟨resultPlain, spares | ⟨_, resumes⟩⟩ :=
    Builtin.call_kept (Value.Made.stable _).kept plain called
  · exact ⟨calm.spare spares, resultPlain⟩
  · simp [Machine.resume, calm.frames] at resumes

/-! ## Operators -/

namespace Operator

theorem inRange_eq_checked (operator : Operator) (number : Int) :
    operator.inRange number = operator.checked number := by
  unfold inRange checked Integer.ofInt?
  split <;> rfl

/-- The rules of the language compute as mathematical integers do. -/
theorem rule_eq_binary
    (operator : Operator) (unused : Nat) (left right : Value) :
    operator.rule unused left right = operator.binary unused left right := by
  unfold rule
  split
  next left right =>
    cases operator with
    | div =>
        simp only [onNumbers, binary, onIntegers, inRange_eq_checked]
        split <;> rfl
    | eq =>
        have same : (left == right) = decide (left.toInt = right.toInt) := by
          rw [Bool.eq_iff_iff]
          simp [Int64.toInt_inj]
        simp [onNumbers, binary, Value.isScalar, Value.eq, same]
    | neg => rfl
    | _ => simp [onNumbers, binary, onIntegers, inRange_eq_checked]
  next => rfl

end Operator

/-! ## Agreement of single operations -/

namespace Machine

/-- The computation comes to what the evaluation in the world comes to: it gives
the frame the result, or fails with the exception. The operand stack may be full
instead. -/
def Agrees
    (world : Machine) (frame : Frame)
    (evaluation : Evaluation Value)
    (computation : Except Failure Machine) : Prop :=
  (∃ capacity, computation = .error (.fault (.stackOverflow capacity))) ∨
    match evaluation with
    | .value result after =>
        after.Calm ∧ result.Plain ∧
        computation = .ok (after.within (frame.given result))
    | .raised exception after => after = world ∧
        computation = .error (.exception exception)
    | .unfinished => False

variable {world after : Machine} {frame popped : Frame} {value : Value}
    {evaluation : Evaluation Value}

theorem push_within (world : Machine) (frame : Frame) (value : Value) :
    (world.within frame).push value = .ok (world.within (frame.given value)) ∨
      ∃ capacity, (world.within frame).push value =
        .error (.fault (.stackOverflow capacity)) := by
  unfold Machine.push
  rw [top_eq (frames_within world frame), Outcome.ok_bind]
  unfold Frame.push
  split
  · exact .inl rfl
  · exact .inr ⟨_, rfl⟩

theorem push_agrees (calm : after.Calm) (plain : value.Plain) :
    world.Agrees frame (.value value after)
      ((after.within frame).push value) := by
  rcases push_within after frame value with pushed | full
  · exact .inr ⟨calm, plain, pushed⟩
  · exact .inl full

/-- Pushing first what an operation takes does no harm. -/
theorem Agrees.of_push
    {rest : Machine → Except Failure Machine}
    (agrees : world.Agrees popped evaluation
      (rest (after.within (frame.given value)))) :
    world.Agrees popped evaluation
      ((after.within frame).push value >>= rest) := by
  rcases push_within after frame value with pushed | ⟨capacity, full⟩
  · rw [pushed]
    exact agrees
  · rw [full]
    exact .inl ⟨capacity, rfl⟩

theorem pop_within
    (world : Machine)
    {stack : List Value}
    (stackEq : frame.stack = value :: stack) :
    (world.within frame).pop =
      .ok (value, world.within { frame with stack := stack }) := by
  unfold Machine.pop
  rw [top_eq (frames_within world frame), Outcome.ok_bind]
  simp only [Frame.pop, stackEq]
  rfl

theorem pushResult_agrees {outcome : Except Exception Value}
    (calm : world.Calm)
    (plain : ∀ result, outcome = .ok result → result.Plain) :
    world.Agrees frame (.ofExcept outcome world)
      ((world.within frame).pushResult outcome) := by
  cases outcome with
  | ok result => exact push_agrees calm (plain result rfl)
  | error exception => exact .inr ⟨rfl, rfl⟩

/-- Calling a plain value applies it. -/
theorem callValue_agrees {callee : Value}
    {arguments : List Value}
    (calm : world.Calm)
    (unlinked : frame.link = none)
    (calleePlain : callee.Plain)
    (argumentsPlain : ∀ value ∈ arguments, value.Plain) :
    world.Agrees frame (callee.apply arguments world)
      ((world.within frame).callValue callee arguments) := by
  cases calleePlain with
  | closure impossible => exact impossible.elim
  | builtin native =>
      simp only [Machine.callValue, Value.apply,
        Builtin.call_within native arguments calm unlinked]
      cases called : native.call world arguments with
      | error exception => exact .inr ⟨rfl, rfl⟩
      | ok outcome =>
          obtain ⟨afterCalm, resultPlain⟩ :=
            Builtin.call_calm calm argumentsPlain called
          exact push_agrees afterCalm resultPlain
  | _ => exact .inr ⟨rfl, rfl⟩

variable {stack : List Value} {place : Nat}

/-- A call applies what lies beneath its arguments. -/
theorem call_agrees {callee : Value}
    {arguments : List Value}
    (calm : world.Calm)
    (unlinked : frame.link = none)
    (calleePlain : callee.Plain)
    (argumentsPlain : ∀ value ∈ arguments, value.Plain) :
    world.Agrees { frame with ip := place, stack := stack }
      (callee.apply arguments world)
      ((world.standing frame place (arguments.reverse ++ callee :: stack)).call
        arguments.length) := by
  rw [standing, call_eq (frames_within world _) rfl]
  exact callValue_agrees calm unlinked calleePlain argumentsPlain

theorem Calm.method
    (calm : world.Calm)
    {typeName : String} {operator : Operator}
    (found : world.methods.find? typeName operator = some value) :
    value.Plain := by
  obtain ⟨entry, member, rfl⟩ := MethodTable.mem_of_find? found
  exact calm.methods entry member

/-- A binary operation evaluates its operator. -/
theorem binaryOperator_agrees {left right : Value}
    (operator : Operator) (calm : world.Calm)
    (unlinked : frame.link = none)
    (leftPlain : left.Plain) (rightPlain : right.Plain) :
    world.Agrees { frame with ip := place, stack := stack }
      (operator.evaluate left right world)
      ((world.standing frame place (right :: left :: stack)).binaryOperator
        operator) := by
  unfold Machine.binaryOperator Operator.evaluate
  rw [standing, pop_within world rfl, Outcome.ok_bind]
  simp only
  rw [pop_within world rfl, Outcome.ok_bind, Operator.rule_eq_binary]
  simp only [store_within, methods_within]
  cases ruled : operator.binary world.store.unused left right with
  | some outcome =>
      cases outcome with
      | ok result =>
          exact push_agrees (calm.take _)
            (Operator.binary_kept (Value.Made.stable _).kept leftPlain
              rightPlain ruled)
      | error exception => exact .inr ⟨rfl, rfl⟩
  | none =>
      cases found : world.methods.find? left.typeName operator with
      | some method =>
          refine Agrees.of_push (Agrees.of_push (Agrees.of_push ?_))
          exact @call_agrees world frame stack place method
            [left, right] calm unlinked
            (calm.method found) (by simp [leftPlain, rightPlain])
      | none =>
          refine pushResult_agrees calm ?_
          intro result gives
          exact Operator.fallback_kept (Value.Made.stable _).kept gives

/-- Without a rule for its operand, the negation is left to a method or to the
fallback. -/
theorem evaluate_neg_of_unruled {operand : Value}
    (unruled : Operator.neg.unary operand = none)
    (world : Machine) :
    UnaryOp.neg.evaluate operand world =
      match world.methods.find? operand.typeName .neg with
      | some method => method.apply [operand] world
      | none => .ofExcept (Operator.neg.fallback operand none) world := by
  cases operand with
  | int number => cases unruled
  | _ => rfl

/-- Negation evaluates its operator. -/
theorem negate_agrees {operand : Value}
    (calm : world.Calm)
    (unlinked : frame.link = none)
    (operandPlain : operand.Plain) :
    world.Agrees { frame with ip := place, stack := stack }
      (UnaryOp.neg.evaluate operand world)
      (world.standing frame place (operand :: stack)).negate := by
  unfold Machine.negate
  rw [standing, pop_within world rfl, Outcome.ok_bind]
  simp only
  cases ruled : Operator.neg.unary operand with
  | some outcome =>
      obtain ⟨number, rfl, rfl⟩ : ∃ number, operand = .int number ∧
          outcome = Operator.neg.checked (-number.toInt) := by
        cases operand <;> simp_all [Operator.unary]
      simp only [UnaryOp.evaluate, Operator.inRange_eq_checked]
      refine pushResult_agrees calm ?_
      intro result gives
      exact Operator.unary_kept (Value.Made.stable _).kept (gives ▸ ruled)
  | none =>
      rw [evaluate_neg_of_unruled ruled]
      simp only [methods_within]
      cases found : world.methods.find? operand.typeName .neg with
      | some method =>
          refine Agrees.of_push (Agrees.of_push ?_)
          exact @call_agrees world frame stack place method
            [operand] calm unlinked (calm.method found) (by simp [operandPlain])
      | none =>
          refine pushResult_agrees calm ?_
          intro result gives
          exact Operator.fallback_kept (Value.Made.stable _).kept gives

/-! ## Runs -/

/-- The run comes to a machine. -/
def Reaches (start later : Machine) : Prop :=
  ∃ count, start.reached count = some later

/-- The run ends because an operand stack is full. -/
def Overflows (start : Machine) : Prop :=
  ∃ count capacity final,
    start.run count = some ⟨.error (.fault (.stackOverflow capacity)), final⟩

/-- The run ends in an exception and leaves a world. -/
def Raises (start : Machine) (exception : Exception) (world : Machine) : Prop :=
  ∃ count calls, start.run count =
    some
      ⟨.error (.exception { exception with trace := exception.trace ++ calls }),
        world⟩

/-- The run of a frame comes to what an evaluation comes to: it reaches a place
with the result on the operand stack, or ends in the exception. The run of an
evaluation that does not finish goes on for a count of steps, and any run may
find its operand stack full. -/
def Mirrors {α : Type}
    (frame : Frame) (place : Nat) (left : α → List Value) (count : Nat)
    (start : Machine)
    (evaluation : Evaluation α) : Prop :=
  start.Overflows ∨
    match evaluation with
    | .value result world =>
        world.Calm ∧ (∀ value ∈ left result, value.Plain) ∧
          start.Reaches (world.standing frame place (left result))
    | .raised exception world => start.Raises exception world
    | .unfinished => ∃ later, start.reached count = some later

section Runs

variable {start later : Machine} {instruction : Instruction}

theorem Overflows.of_reaches
    (overflows : later.Overflows)
    (reaches : start.Reaches later) :
    start.Overflows := by
  obtain ⟨count, reachesLater⟩ := reaches
  obtain ⟨more, capacity, final, ends⟩ := overflows
  exact ⟨count + more, capacity, final,
    (run_of_reached reachesLater more).trans ends⟩

theorem Raises.of_reaches {exception : Exception}
    (raises : later.Raises exception world)
    (reaches : start.Reaches later) :
    start.Raises exception world := by
  obtain ⟨count, reachesLater⟩ := reaches
  obtain ⟨more, calls, ends⟩ := raises
  exact ⟨count + more, calls, (run_of_reached reachesLater more).trans ends⟩

theorem Reaches.trans {last : Machine}
    (early : start.Reaches later)
    (late : later.Reaches last) :
    start.Reaches last := by
  obtain ⟨count, reachesLater⟩ := early
  obtain ⟨more, reachesLast⟩ := late
  exact ⟨count + more, (reached_add reachesLater more).trans reachesLast⟩

theorem Reaches.of_step (steps : start.step = .running later) :
    start.Reaches later :=
  ⟨1, reached_of_step steps 0⟩

namespace Mirrors

variable {α β : Type} {place goal count : Nat} {left : α → List Value}
    {last : β → List Value} {evaluation : Evaluation α}

/-- A frame with a result on its operand stack mirrors that result. -/
theorem arrived {result : α}
    (calm : world.Calm)
    (plain : ∀ value ∈ left result, value.Plain) :
    Mirrors frame place left count (world.standing frame place (left result))
      (.value result world) :=
  .inr ⟨calm, plain, 0, rfl⟩

/-- A run that mirrors an evaluation still does after the steps that led to it.
They count when the evaluation does not finish. -/
theorem of_reached {steps : Nat}
    (mirrors : Mirrors frame place left count later evaluation)
    (reaches : start.reached steps = some later) :
    Mirrors frame place left (steps + count) start evaluation := by
  rcases mirrors with overflows | comes
  · exact .inl (overflows.of_reaches ⟨steps, reaches⟩)
  refine .inr ?_
  cases evaluation with
  | value result world =>
      obtain ⟨calm, plain, reachesResult⟩ := comes
      exact ⟨calm, plain, Reaches.trans ⟨steps, reaches⟩ reachesResult⟩
  | raised exception world => exact Raises.of_reaches comes ⟨steps, reaches⟩
  | unfinished =>
      obtain ⟨final, lasts⟩ := comes
      exact ⟨final, (reached_add reaches count).trans lasts⟩

theorem mono {fewer : Nat}
    (mirrors : Mirrors frame place left count start evaluation)
    (few : fewer ≤ count) :
    Mirrors frame place left fewer start evaluation := by
  rcases mirrors with overflows | comes
  · exact .inl overflows
  refine .inr ?_
  cases evaluation with
  | value result world => exact comes
  | raised exception world => exact comes
  | unfinished =>
      obtain ⟨final, lasts⟩ := comes
      exact reached_of_le lasts few

/-- One step may come first. -/
theorem of_step
    (mirrors : Mirrors frame place left count later evaluation)
    (steps : start.step = .running later) :
    Mirrors frame place left (count + 1) start evaluation :=
  Nat.add_comm 1 count ▸ mirrors.of_reached (reached_of_step steps 0)

/-- A run goes on as the evaluation does. -/
theorem andThen {next : α → Machine → Evaluation β}
    (first : Mirrors frame place left count start evaluation)
    (second : ∀ {result world}, evaluation = .value result world → world.Calm →
      (∀ value ∈ left result, value.Plain) → Mirrors frame goal last count
        (world.standing frame place (left result)) (next result world)) :
    Mirrors frame goal last count start (evaluation.andThen next) := by
  rcases first with overflows | comes
  · exact .inl overflows
  cases evaluation with
  | value result world =>
      obtain ⟨calm, plain, steps, reaches⟩ := comes
      exact ((second rfl calm plain).of_reached reaches).mono
        (Nat.le_add_left count steps)
  | raised exception world => exact .inr comes
  | unfinished => exact .inr comes

/-- A run may mirror an evaluation with another result. -/
theorem withResult {change : α → β}
    (mirrors : Mirrors frame place left count start evaluation)
    (same : ∀ result, left result = last (change result)) :
    Mirrors frame place last count start (evaluation.withResult change) := by
  refine mirrors.andThen ?_
  intro result world _ calm plain
  rw [same] at plain ⊢
  exact arrived calm plain

end Mirrors

theorem Calm.cleared_within (calm : world.Calm) (frame : Frame) :
    (world.within frame).cleared = world := by
  obtain ⟨frames, handlers, _, _⟩ := calm
  cases world
  simp_all [Machine.cleared, Machine.within]

/-- A step whose operation agrees with an evaluation mirrors it. -/
theorem Agrees.mirrors {place count : Nat}
    {rest : List Value} {computation : Except Failure Machine}
    (agrees : world.Agrees { frame with ip := place, stack := rest } evaluation
      computation)
    (calm : world.Calm)
    (plain : ∀ value ∈ rest, value.Plain)
    (fetches : start.fetch = .ok
      (instruction, world.standing frame place stack))
    (executes : (world.standing frame place stack).execute instruction =
      computation >>= fun next => pure (.onward next)) :
    Mirrors frame place (· :: rest) count start evaluation := by
  have fails {failure : Failure} (failed : computation = .error failure) :
      start.run 1 =
        some
          ⟨.error (failure.withCalls (world.standing frame place stack).trace),
            world⟩ := by
    rw [failed, Outcome.error_bind] at executes
    simp only [Machine.run, Machine.step, fetches, executes, Machine.fail]
    rw [standing, calm.cleared_within]
  rcases agrees with ⟨capacity, full⟩ | comes
  · exact .inl ⟨1, capacity, world, fails full⟩
  cases evaluation with
  | value result after =>
      obtain ⟨afterCalm, resultPlain, rfl⟩ := comes
      refine .inr ⟨afterCalm, ?_, .of_step ?_⟩
      · intro value member
        rcases List.mem_cons.1 member with rfl | old
        · exact resultPlain
        · exact plain value old
      · rw [Outcome.ok_bind] at executes
        simp only [Machine.step, fetches, executes]
        rfl
  | raised exception after =>
      obtain ⟨rfl, failed⟩ := comes
      exact .inr ⟨1, _, fails failed⟩
  | unfinished => exact comes.elim

end Runs

end Machine

end EffectScript
