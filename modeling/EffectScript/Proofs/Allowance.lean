import EffectScript.Proofs.Run

/-!
# Larger limits

The limits on frames and operand stacks are looked at in two places only, where
a frame is opened and where a value is pushed, and there they only decide
whether the machine goes on. So a machine with larger limits does step by step
what a machine with smaller ones does, until the smaller ones are exceeded.

Operations of the two machines are compared by `Outcome.Follows`: the second one
succeeds where the first one does and fails in the same way where the first one
fails, unless the first one overflows.
-/

namespace EffectScript

open Outcome

/-- The limits allow no more than the given ones. -/
structure Limits.Within (tight loose : Limits) : Prop where
  maxFrames : tight.maxFrames ≤ loose.maxFrames
  stackCapacity : tight.stackCapacity ≤ loose.stackCapacity

/-- The failure says that a limit of the machine is exceeded. -/
def Failure.IsOverflow : Failure → Prop
  | .fault (.frameOverflow _) => True
  | .fault (.stackOverflow _) => True
  | _ => False

theorem Failure.IsOverflow.withCalls {failure : Failure}
    (overflow : failure.IsOverflow)
    (calls : List TraceEntry) :
    (failure.withCalls calls).IsOverflow := by
  cases failure with
  | fault cause => exact overflow
  | _ => exact overflow.elim

/-- A computation follows itself. -/
theorem Outcome.Follows.same {ε α : Type}
    {excused : ε → Prop}
    (computation : Except ε α) :
    Follows excused Eq computation computation := by
  cases computation with
  | ok value => exact .ok rfl
  | error cause => exact .error cause

namespace Machine

/-- The machine under other limits. -/
def under (limits : Limits) (machine : Machine) : Machine :=
  { machine with limits := limits }

/-- The second machine differs from the first one only in its limits, which are
the given ones and allow at least as much. -/
structure Eased (loose : Limits) (first second : Machine) : Prop where
  eq : second = first.under loose
  within : first.limits.Within loose

/-- The second computation gives the first one's machine under the given limits,
unless the first one overflows. -/
abbrev Eases (loose : Limits) (first second : Except Failure Machine) : Prop :=
  Follows Failure.IsOverflow (Eased loose) first second

variable {loose : Limits} {machine : Machine}

/-! ## The operand stack -/

@[simp]
theorem frames_under : (machine.under loose).frames = machine.frames := rfl

@[simp]
theorem handlers_under :
    (machine.under loose).handlers = machine.handlers := rfl

@[simp]
theorem globals_under : (machine.under loose).globals = machine.globals := rfl

@[simp]
theorem methods_under : (machine.under loose).methods = machine.methods := rfl

@[simp]
theorem store_under : (machine.under loose).store = machine.store := rfl

@[simp]
theorem top_under : (machine.under loose).top = machine.top := rfl

@[simp]
theorem setTop_under (frame : Frame) :
    (machine.under loose).setTop frame = (machine.setTop frame).under loose :=
      rfl

theorem pop_under :
    (machine.under loose).pop = machine.pop.map fun outcome =>
      (outcome.1, outcome.2.under loose) := by
  simp only [Machine.pop, top_under, setTop_under, map_bind]
  rfl

/-- A value that fits under the smaller limit fits under the larger one. -/
theorem push_under (within : machine.limits.Within loose) (value : Value) :
    Eases loose (machine.push value) ((machine.under loose).push value) := by
  simp only [Machine.push, top_under]
  cases machine.top with
  | error failure => exact .error failure
  | ok frame =>
      simp only [ok_bind, Frame.push]
      by_cases room : frame.stack.length < machine.limits.stackCapacity
      · have more : frame.stack.length < loose.stackCapacity :=
          Nat.lt_of_lt_of_le room within.stackCapacity
        have wide : frame.stack.length <
            (machine.under loose).limits.stackCapacity := more
        rw [if_pos room, if_pos wide]
        exact .ok ⟨rfl, within⟩
      · rw [if_neg room]
        exact .inl trivial

/-- Popping a value and going on with the rest. -/
theorem pop_bind_under {α : Type} {good : α → α → Prop}
    (within : machine.limits.Within loose)
    {rest : Value × Machine → Except Failure α}
    (next : ∀ value popped, popped.limits.Within loose →
      Follows Failure.IsOverflow good (rest (value, popped))
        (rest (value, popped.under loose))) :
    Follows Failure.IsOverflow good (machine.pop >>= rest)
      ((machine.under loose).pop >>= rest) := by
  rw [pop_under]
  cases popped : machine.pop with
  | error failure => exact .error failure
  | ok outcome =>
      obtain ⟨value, after⟩ := outcome
      refine next value after ?_
      obtain ⟨frame, _, popsFrame⟩ := bind_eq_ok.1 popped
      obtain ⟨_, _, result⟩ := bind_eq_ok.1 popsFrame
      cases result
      exact within

/-! ## Calls -/

/-- A frame that may be opened under the smaller limit may be opened under the
larger one. -/
theorem openFrame_under
    (within : machine.limits.Within loose)
    (closure : Closure) (arguments : List Value) :
    Eases loose (machine.openFrame closure arguments)
      ((machine.under loose).openFrame closure arguments) := by
  unfold Machine.openFrame
  by_cases room : machine.frames.length < machine.limits.maxFrames
  · have wide : (machine.under loose).frames.length <
        (machine.under loose).limits.maxFrames :=
      Nat.lt_of_lt_of_le room within.maxFrames
    rw [if_pos room, if_pos wide]
    refine (Follows.same _).bind fun captured _ same => ?_
    subst same
    refine (Follows.same _).bind fun outcome _ same => ?_
    subst same
    exact .ok ⟨rfl, within⟩
  · rw [if_neg room]
    exact .inl trivial

end Machine

section Native

variable {loose : Limits} {machine : Machine}

theorem Machine.overlooked_under : Machine.Overlooked (·.under loose) where
  store _ := rfl
  outlet _ := rfl
  methods _ := rfl
  take _ _ := rfl
  setOutlet _ _ := rfl
  setMethods _ _ := rfl

theorem Machine.resume_under :
    (machine.under loose).resume = machine.resume.map (·.under loose) := by
  simp only [Machine.resume, Machine.frames_under]
  split <;> rfl

/-- A native function does not look at the limits. -/
theorem Builtin.call_under (builtin : Builtin) (arguments : List Value) :
    builtin.call (machine.under loose) arguments =
      (builtin.call machine arguments).map fun outcome =>
        (outcome.1, outcome.2.under loose) :=
  Builtin.call_overlooked Machine.overlooked_under Machine.resume_under
    builtin arguments

/-- A native function does not change the limits. -/
theorem Machine.limits_of_call {after : Machine}
    {builtin : Builtin} {arguments : List Value} {result : Value}
    (called : builtin.call machine arguments = .ok (result, after)) :
    after.limits = machine.limits := by
  obtain ⟨_, spares | ⟨_, resumes⟩⟩ :=
    Builtin.call_kept .trivial (fun _ _ => trivial) called
  · exact spares.limits
  · unfold Machine.resume at resumes
    split at resumes
    · cases resumes
      rfl
    · cases resumes

end Native

namespace Machine

variable {loose : Limits} {machine : Machine}

theorem callValue_under
    (within : machine.limits.Within loose)
    (callee : Value) (arguments : List Value) :
    Eases loose (machine.callValue callee arguments)
      ((machine.under loose).callValue callee arguments) := by
  cases callee with
  | closure closure =>
      simp only [Machine.callValue]
      split
      · exact openFrame_under within closure arguments
      · exact .error _
  | builtin builtin =>
      simp only [Machine.callValue, Builtin.call_under]
      cases called : builtin.call machine arguments with
      | error exception => exact .error _
      | ok outcome =>
          obtain ⟨result, after⟩ := outcome
          refine push_under ?_ result
          rw [limits_of_call called]
          exact within
  | _ => exact .error _

theorem call_under (within : machine.limits.Within loose) (count : Nat) :
    Eases loose (machine.call count) ((machine.under loose).call count) := by
  simp only [Machine.call, top_under]
  refine (Follows.same _).bind fun frame _ same => ?_
  subst same
  split
  · exact .error _
  next callee rest _ =>
    have popped : (machine.setTop { frame with stack := rest }).limits.Within
      loose := within
    exact callValue_under popped callee _

/-! ## Operators -/

theorem pushResult_under
    (within : machine.limits.Within loose)
    (result : Except Exception Value) :
    Eases loose (machine.pushResult result)
      ((machine.under loose).pushResult result) := by
  cases result with
  | ok value => exact push_under within value
  | error exception => exact .error _

/-- Pushing a value and going on with the rest. -/
theorem push_bind_under
    {rest : Machine → Except Failure Machine}
    (within : machine.limits.Within loose)
    (value : Value)
    (next : ∀ pushed, pushed.limits.Within loose →
      Eases loose (rest pushed) (rest (pushed.under loose))) :
    Eases loose (machine.push value >>= rest)
      ((machine.under loose).push value >>= rest) := by
  refine (push_under within value).bind fun pushed other eased => ?_
  obtain ⟨rfl, pushedWithin⟩ := eased
  exact next pushed pushedWithin

theorem binaryOperator_under
    (within : machine.limits.Within loose)
    (operator : Operator) :
    Eases loose (machine.binaryOperator operator)
      ((machine.under loose).binaryOperator operator) := by
  refine pop_bind_under within fun right afterRight afterWithin => ?_
  refine pop_bind_under afterWithin fun left popped poppedWithin => ?_
  simp only [store_under, methods_under]
  split
  · have taken :
        (popped.take (operator.identitiesTaken left right)).limits.Within
          loose := poppedWithin
    exact pushResult_under taken _
  · split
    next method _ =>
      refine push_bind_under poppedWithin method
        fun withMethod methodWithin => ?_
      refine push_bind_under methodWithin left fun withLeft leftWithin => ?_
      refine push_bind_under leftWithin right fun withRight rightWithin => ?_
      exact call_under rightWithin 2
    next => exact pushResult_under poppedWithin _

theorem negate_under (within : machine.limits.Within loose) :
    Eases loose machine.negate (machine.under loose).negate := by
  refine pop_bind_under within fun operand popped poppedWithin => ?_
  simp only [methods_under]
  split
  · exact pushResult_under poppedWithin _
  · split
    next method _ =>
      refine push_bind_under poppedWithin method
        fun withMethod methodWithin => ?_
      refine push_bind_under methodWithin operand
        fun withOperand operandWithin => ?_
      exact call_under operandWithin 1
    next => exact pushResult_under poppedWithin _

/-! ## Effects -/

theorem setHandler_under
    (within : machine.limits.Within loose)
    (effect : String) (distance : Nat) :
    Eases loose (machine.setHandler effect distance)
      ((machine.under loose).setHandler effect distance) := by
  refine pop_bind_under within fun value popped poppedWithin => ?_
  simp only [top_under]
  refine (Follows.same _).bind fun frame _ same => ?_
  subst same
  cases value with
  | closure closure => exact .ok ⟨rfl, poppedWithin⟩
  | _ => exact .error _

theorem tie_under (within : machine.limits.Within loose) (link : EffectLink) :
    Eases loose (machine.tie link) ((machine.under loose).tie link) := by
  simp only [Machine.tie, top_under]
  refine (Follows.same _).bind fun frame _ same => ?_
  subst same
  exact .ok ⟨rfl, within⟩

theorem perform_under (within : machine.limits.Within loose) (effect : String) :
    Eases loose (machine.perform effect)
      ((machine.under loose).perform effect) := by
  refine pop_bind_under within fun payload popped poppedWithin => ?_
  simp only [handlers_under]
  split
  · exact .error _
  next dispatch _ =>
    have masked :
        ({ popped with handlers := dispatch.staying } : Machine).limits.Within
          loose := poppedWithin
    refine push_bind_under masked _ fun withHandler handlerWithin => ?_
    refine push_bind_under handlerWithin payload
      fun withPayload payloadWithin => ?_
    refine (call_under payloadWithin 1).bind fun called other eased => ?_
    obtain ⟨rfl, calledWithin⟩ := eased
    exact tie_under calledWithin _

theorem abandon_under
    (within : machine.limits.Within loose)
    (link : EffectLink) (value : Value) :
    Eases loose (machine.abandon link value)
      ((machine.under loose).abandon link value) := by
  have unwound : ({ machine with
      frames := oldest (link.handlerFrame + 1) machine.frames
      handlers := oldest link.groupStart machine.handlers } :
        Machine).limits.Within loose := within
  refine (Follows.same _).bind fun frame _ same => ?_
  subst same
  refine push_under ?_ value
  exact unwound

/-! ## Instructions -/

/-- What executing an instruction leads to under larger limits. -/
def EasedFlow (loose : Limits) : Flow → Flow → Prop
  | .onward first, .onward second => Eased loose first second
  | .finished value first, .finished other second => other = value ∧
      Eased loose first second
  | _, _ => False

theorem onward_under {first second : Except Failure Machine}
    (eases : Eases loose first second) :
    Follows Failure.IsOverflow (EasedFlow loose)
      (first >>= fun after => pure (.onward after))
        (second >>= fun after => pure (.onward after)) :=
  eases.bind fun _ _ eased => .ok eased

theorem returnValue_under (within : machine.limits.Within loose) :
    Follows Failure.IsOverflow (EasedFlow loose) machine.returnValue
      (machine.under loose).returnValue := by
  simp only [Machine.returnValue, top_under]
  refine (Follows.same _).bind fun frame _ same => ?_
  subst same
  split
  · exact .error _
  next value _ =>
    have returned : ({ machine with
        frames := machine.frames.tail
        handlers := machine.handlers.dropWhile fun handler =>
          machine.frames.tail.length ≤ handler.frame } : Machine).limits.Within
            loose := within
    split
    next link _ => exact onward_under (abandon_under returned link value)
    next =>
      by_cases last : machine.frames.tail.isEmpty
      · simp only [frames_under, last, if_true]
        exact ⟨_, rfl, rfl, rfl, within⟩
      · simp only [frames_under, last]
        exact onward_under (push_under returned value)
  · exact .error _

theorem makeClosure_under
    (within : machine.limits.Within loose)
    (index : UInt8) :
    Eases loose (machine.makeClosure index)
      ((machine.under loose).makeClosure index) := by
  simp only [Machine.makeClosure, top_under]
  refine (Follows.same _).bind fun frame _ same => ?_
  subst same
  split
  next identity template _ =>
    refine (Follows.same _).bind fun boxes _ same => ?_
    subst same
    have taken : (machine.take 1).limits.Within loose := within
    exact push_under taken _
  next => exact .error _

theorem loadHeap_under
    (within : machine.limits.Within loose)
    (instruction : Instruction) :
    Eases loose (machine.loadHeap instruction)
      ((machine.under loose).loadHeap instruction) := by
  simp only [Machine.loadHeap, top_under]
  refine (Follows.same _).bind fun frame _ same => ?_
  subst same
  refine (Follows.same _).bind fun held _ same => ?_
  subst same
  cases held with
  | box cell => exact push_under within _
  | _ => exact .error _

theorem storeHeap_under
    (within : machine.limits.Within loose)
    (instruction : Instruction) :
    Eases loose (machine.storeHeap instruction)
      ((machine.under loose).storeHeap instruction) := by
  refine pop_bind_under within fun value popped poppedWithin => ?_
  simp only [top_under]
  refine (Follows.same _).bind fun frame _ same => ?_
  subst same
  refine (Follows.same _).bind fun held _ same => ?_
  subst same
  cases held with
  | box cell => exact .ok ⟨rfl, poppedWithin⟩
  | _ => exact .error _

/-- Executing an instruction under larger limits. -/
theorem execute_under
    (within : machine.limits.Within loose)
    (instruction : Instruction) :
    Follows Failure.IsOverflow (EasedFlow loose) (machine.execute instruction)
      ((machine.under loose).execute instruction) := by
  have pushed (value : Value) := onward_under (push_under within value)
  have operated (operator : Operator) :=
    onward_under (binaryOperator_under within operator)
  have goes {first : Machine} (same : first.limits = machine.limits) :
      Follows Failure.IsOverflow (EasedFlow loose) (.ok (.onward first))
        (.ok (.onward (first.under loose))) := .ok ⟨rfl, same ▸ within⟩
  simp only [Machine.execute, top_under]
  refine (Follows.same _).bind fun frame _ same => ?_
  subst same
  split
  next =>
    split
    · exact pushed _
    · exact .error _
  next => exact pushed _
  next => exact pushed _
  next => exact pushed _
  next =>
    refine (Follows.same _).bind fun value _ same => ?_
    subst same
    exact pushed _
  next =>
    refine (Follows.same _).bind fun outcome _ same => ?_
    subst same
    refine (Follows.same _).bind fun stored _ same => ?_
    subst same
    exact goes rfl
  next => exact onward_under (loadHeap_under within instruction)
  next => exact onward_under (storeHeap_under within instruction)
  next =>
    refine (Follows.same _).bind fun name _ same => ?_
    subst same
    simp only [globals_under]
    split
    · exact pushed _
    · exact .error _
  next =>
    refine (Follows.same _).bind fun name _ same => ?_
    subst same
    refine pop_bind_under within fun value popped poppedWithin => ?_
    exact .ok ⟨rfl, poppedWithin⟩
  next =>
    refine pop_bind_under within fun value popped poppedWithin => ?_
    exact .ok ⟨rfl, poppedWithin⟩
  next =>
    split
    · exact goes rfl
    · exact .error _
  next => exact goes rfl
  next =>
    refine (Follows.same _).bind fun outcome _ same => ?_
    subst same
    split
    · exact goes rfl
    · exact goes rfl
  next =>
    split
    · exact goes rfl
    · exact .error _
  next => exact onward_under (call_under within _)
  next => exact returnValue_under within
  next => exact operated .add
  next => exact operated .sub
  next => exact operated .mul
  next => exact operated .div
  next => exact operated .eq
  next => exact operated .lt
  next => exact operated .gt
  next =>
    refine pop_bind_under within fun value popped poppedWithin => ?_
    exact onward_under (push_under poppedWithin _)
  next => exact onward_under (negate_under within)
  next => exact onward_under (makeClosure_under within _)
  next =>
    refine (Follows.same _).bind fun name _ same => ?_
    subst same
    exact onward_under (setHandler_under within name _)
  next =>
    refine (Follows.same _).bind fun name _ same => ?_
    subst same
    exact onward_under (perform_under within name)
  next => exact goes rfl
  next => exact goes rfl

end Machine

/-! ## Steps -/

/-- What the step leads to, under other limits. -/
def Step.under (limits : Limits) : Step → Step
  | .running machine => .running (machine.under limits)
  | .finished value machine => .finished value (machine.under limits)
  | .failed failure machine => .failed failure (machine.under limits)

/-- The step ends the run because a limit is exceeded. -/
def Step.Overflows : Step → Prop
  | .failed failure _ => failure.IsOverflow
  | _ => False

/-- The second step is the first one under the given limits, and if the run goes
on, these still allow as much as the machine needs. -/
structure Step.Eased (loose : Limits) (first second : Step) : Prop where
  eq : second = first.under loose
  within : ∀ machine, first = .running machine → machine.limits.Within loose

namespace Machine

variable {loose : Limits} {machine : Machine}

theorem fetch_under : (machine.under loose).fetch =
    machine.fetch.map fun outcome => (outcome.1, outcome.2.under loose) := by
  simp only [Machine.fetch, top_under, map_bind]
  congr 1
  funext frame
  cases Instruction.decode frame.template.code frame.ip <;> rfl

theorem limits_of_fetch {instruction : Instruction}
    {fetched : Machine}
    (fetches : machine.fetch = .ok (instruction, fetched)) :
    fetched.limits = machine.limits := by
  obtain ⟨frame, _, decodes⟩ := bind_eq_ok.1 fetches
  split at decodes
  · cases decodes
    rfl
  · cases decodes

/-- Failing does not depend on the limits. -/
theorem fail_eased (failure : Failure) :
    (machine.fail failure).Eased loose
      ((machine.under loose).fail failure) := by
  refine ⟨rfl, ?_⟩
  intro after runs
  cases runs

/-- A step under larger limits does the same, unless the smaller ones are
exceeded in it. -/
theorem step_under (within : machine.limits.Within loose) :
    machine.step.Overflows ∨
    machine.step.Eased loose (machine.under loose).step := by
  unfold Machine.step
  rw [fetch_under]
  cases fetches : machine.fetch with
  | error failure => exact .inr (fail_eased failure)
  | ok outcome =>
      obtain ⟨instruction, fetched⟩ := outcome
      have still : fetched.limits.Within loose := by
        rw [limits_of_fetch fetches]
        exact within
      have executes := execute_under still instruction
      simp only [Except.map]
      cases executed : fetched.execute instruction with
      | error failure =>
          rw [executed] at executes
          rcases executes with overflow | same
          · exact .inl (overflow.withCalls _)
          · rw [same]
            exact .inr (fail_eased failure)
      | ok flow =>
          rw [executed] at executes
          obtain ⟨other, same, eased⟩ := executes
          rw [same]
          cases flow with
          | onward next =>
              cases other with
              | finished => exact eased.elim
              | onward after =>
                  obtain ⟨rfl, nextWithin⟩ := eased
                  refine .inr ⟨rfl, ?_⟩
                  intro further runs
                  cases runs
                  exact nextWithin
          | finished value final =>
              cases other with
              | onward => exact eased.elim
              | finished another after =>
                  obtain ⟨rfl, rfl, _⟩ := eased
                  refine .inr ⟨rfl, ?_⟩
                  intro further runs
                  cases runs

/-- Opening the frame of a script under larger limits does the same, unless the
smaller ones allow no frame. -/
theorem load_under (within : machine.limits.Within loose) (script : Template) :
    (machine.load script).Overflows ∨
      (machine.load script).Eased loose
        ((machine.under loose).load script) := by
  have cleared : (machine.cleared.take 1).limits.Within loose := within
  have opens := openFrame_under cleared ⟨machine.store.unused, script, []⟩ []
  have same : ((machine.under loose).cleared.take 1).openFrame
      ⟨(machine.under loose).store.unused, script, []⟩ [] =
        ((machine.cleared.take 1).under loose).openFrame
          ⟨machine.store.unused, script, []⟩ [] := rfl
  unfold Machine.load
  simp only [same]
  cases opened : (machine.cleared.take 1).openFrame
    ⟨machine.store.unused, script, []⟩ [] with
  | error failure =>
      rw [opened] at opens
      rcases opens with overflow | fails
      · exact .inl (overflow.withCalls _)
      · rw [fails]
        exact .inr (fail_eased failure)
  | ok loaded =>
      rw [opened] at opens
      obtain ⟨other, opensToo, rfl, loadedWithin⟩ := opens
      rw [opensToo]
      refine .inr ⟨rfl, ?_⟩
      intro further runs
      cases runs
      exact loadedWithin

/-! ## Runs -/

/-- The ending under other limits. -/
def Ending.under (limits : Limits) (ending : Ending) : Ending :=
  ⟨ending.result, ending.machine.under limits⟩

/-- The run ended because a limit was exceeded. -/
def Ending.CutShort (ending : Ending) : Prop :=
  ∃ failure, ending.result = .error failure ∧ failure.IsOverflow

/-- The machine after a count of steps of a script, if its run goes on for so
long. -/
def during (machine : Machine) (script : Template) (count : Nat) :
    Option Machine :=
  match machine.load script with
  | .running loaded => loaded.reached count
  | _ => none

/-- The machines that a run reaches are those that it reaches under larger
limits. -/
theorem reached_under {state : Machine} {count : Nat}
    (within : machine.limits.Within loose)
    (reaches : machine.reached count = some state) :
    (machine.under loose).reached count = some (state.under loose) ∧
    state.limits.Within loose := by
  induction count generalizing state with
  | zero =>
      cases reaches
      exact ⟨rfl, within⟩
  | succ count inner =>
      obtain ⟨before, reachesBefore, steps⟩ := reached_succ.1 reaches
      obtain ⟨reachesToo, beforeWithin⟩ := inner reachesBefore
      rcases step_under beforeWithin with overflows | eased
      · rw [steps] at overflows
        exact overflows.elim
      · refine ⟨reached_succ.2 ⟨before.under loose, reachesToo, ?_⟩,
          eased.within state steps⟩
        rw [eased.eq, steps]
        rfl

/-- A run that does not overflow ends in the same way under larger limits. -/
theorem run_under {bound : Nat} {ending : Ending}
    (within : machine.limits.Within loose)
    (ended : machine.run bound = some ending)
    (room : ¬ ending.CutShort) :
    (machine.under loose).run bound = some (ending.under loose) := by
  induction bound generalizing machine with
  | zero => cases ended
  | succ bound inner =>
      simp only [Machine.run] at ended ⊢
      rcases step_under within with overflows | eased
      · cases steps : machine.step with
        | failed failure final =>
            rw [steps] at ended overflows
            cases ended
            exact absurd ⟨failure, rfl, overflows⟩ room
        | _ =>
            rw [steps] at overflows
            exact overflows.elim
      · rw [eased.eq]
        cases steps : machine.step with
        | running next =>
            rw [steps] at ended
            exact inner (eased.within next steps) ended
        | finished value final =>
            rw [steps] at ended
            cases ended
            rfl
        | failed failure final =>
            rw [steps] at ended
            cases ended
            rfl

/-- Limits cut a run short, but they do not change it. Let two machines differ
in their limits only, those of the first one allowing no more than those of the
second. Then every state that the first one reaches in the run of a function the
second one reaches after as many steps; and if the run of the first one ends in
anything but an overflow, that of the second one ends after as many steps in the
same value or failure, with the same trace, output, globals, methods and
boxes. -/
theorem limits_only_cut_runs_short
    (within : machine.limits.Within loose)
    (script : Template) :
    (∀ count state, machine.during script count = some state →
      (machine.under loose).during script count = some (state.under loose)) ∧
    ∀ bound ending, machine.interpret bound script = some ending →
      ¬ ending.CutShort →
      (machine.under loose).interpret bound script =
        some (ending.under loose) := by
  unfold during interpret
  rcases load_under within script with overflows | eased
  · cases loads : machine.load script with
    | failed failure final =>
        rw [loads] at overflows
        refine ⟨fun _ _ impossible => (nomatch impossible), ?_⟩
        rintro _ _ ⟨⟩ room
        exact absurd ⟨failure, rfl, overflows⟩ room
    | _ =>
        rw [loads] at overflows
        exact overflows.elim
  · rw [eased.eq]
    cases loads : machine.load script with
    | running loaded =>
        have loadedWithin := eased.within loaded loads
        exact ⟨fun _ _ reaches => (reached_under loadedWithin reaches).1,
          fun _ _ ended room => run_under loadedWithin ended room⟩
    | finished value final =>
        refine ⟨fun _ _ impossible => (nomatch impossible), ?_⟩
        rintro _ _ ⟨⟩ _
        rfl
    | failed failure final =>
        refine ⟨fun _ _ impossible => (nomatch impossible), ?_⟩
        rintro _ _ ⟨⟩ _
        rfl

/-- Whether a source text compiles and its run on the machine goes on for a
count of steps and gives the number in the end. -/
def givesNumber
    (machine : Machine) (source : String) (count bound : Nat)
    (number : Int64) : Bool :=
  match compileSource source "main" with
  | .error _ => false
  | .ok script =>
      match machine.during script count, machine.interpret bound script with
      | some _, some ⟨.ok (.int result), _⟩ => result == number
      | _, _ => false

theorem run_of_givesNumber {source : String} {count bound : Nat}
    {number : Int64}
    (gives : machine.givesNumber source count bound number) :
    ∃ script state ending, compileSource source "main" = .ok script ∧
      machine.during script count = some state ∧
      machine.interpret bound script = some ending ∧
      ending.result = .ok (.int number) := by
  unfold givesNumber at gives
  split at gives
  · cases gives
  next script compiled =>
    split at gives
    next state result final reaches ended =>
      rw [beq_iff_eq] at gives
      subst gives
      exact ⟨script, state, _, compiled, reaches, ended, rfl⟩
    next => cases gives

/-- A recursion that fits under small limits runs in the same way under the
standard ones. -/
theorem larger_limits_keep_recursion :
    ∃ script state ending,
      compileSource
        "fn sum(n) { if n < 1 { 0 } else { n + sum(n - 1) } } sum(3)" "main" =
          .ok script ∧
      (fresh ⟨5, 6⟩ (.collecting "")).during script 20 = some state ∧
      (fresh .standard (.collecting "")).during script 20 =
        some (state.under .standard) ∧
      (fresh ⟨5, 6⟩ (.collecting "")).interpret 100 script = some ending ∧
      ending.result = .ok (.int 6) ∧
      (fresh .standard (.collecting "")).interpret 100 script =
        some (ending.under .standard) := by
  obtain ⟨script, state, ending, compiled, reaches, ended, result⟩ :=
    run_of_givesNumber
    (show (fresh ⟨5, 6⟩ (.collecting "")).givesNumber
      "fn sum(n) { if n < 1 { 0 } else { n + sum(n - 1) } } sum(3)" 20 100 6 by
        decide +kernel)
  have within : (fresh ⟨5, 6⟩ (.collecting "")).limits.Within .standard :=
    ⟨by decide, by decide⟩
  have room : ¬ ending.CutShort := by
    rintro ⟨failure, fails, _⟩
    cases result.symm.trans fails
  obtain ⟨states, endings⟩ := limits_only_cut_runs_short within script
  exact ⟨script, state, ending, compiled, reaches, states 20 state reaches,
    ended, result, endings 100 ending ended room⟩

end Machine

end EffectScript
