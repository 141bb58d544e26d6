import EffectScript.Proofs.Boxes

/-!
# What an instruction leads to

The trace of a failure is made when the step fails, and nowhere else. Whatever
fails inside an instruction, be it an operator, a native function or a call, has
no trace of its own; an exception that is raised again has lost the one it had.

Only calls, operators and effects open frames, and only a return ends a run.
-/

namespace EffectScript

open Outcome (Ends)

/-! ## Exceptions -/

/-- The computation may raise an exception, which has no trace yet. -/
abbrev RaisesAfresh {α : Type} (computation : Except Exception α) : Prop :=
  Ends (fun exception : Exception => exception.trace = [])
    (fun _ => True) computation

theorem RaisesAfresh.bind {α β : Type}
    {first : Except Exception α} {second : α → Except Exception β}
    (early : RaisesAfresh first)
    (late : ∀ result, RaisesAfresh (second result)) :
    RaisesAfresh (first >>= second) :=
  Ends.bind early fun result _ => late result

namespace Operator

theorem checked_raises (operator : Operator) (number : Int) :
    RaisesAfresh (operator.checked number) := by
  unfold checked
  split
  · trivial
  · rfl

theorem onIntegers_raises {operator : Operator}
    {left right : Int64} {result : Except Exception Value}
    (covered : operator.onIntegers left right = some result) :
    RaisesAfresh result := by
  cases operator with
  | add | sub | mul =>
      cases covered
      exact checked_raises _ _
  | div =>
      simp only [onIntegers] at covered
      split at covered
      · cases covered
        rfl
      · cases covered
        exact checked_raises _ _
  | lt | gt =>
      cases covered
      trivial
  | eq | neg => cases covered

theorem onTexts_raises {operator : Operator}
    {left right : String} {result : Except Exception Value}
    (covered : operator.onTexts left right = some result) :
    RaisesAfresh result := by
  cases operator <;> cases covered <;> trivial

theorem binary_raises {operator : Operator} {unused : Nat}
    {left right : Value} {result : Except Exception Value}
    (covered : operator.binary unused left right = some result) :
    RaisesAfresh result := by
  unfold binary at covered
  split at covered
  · split at covered
    · cases covered
      trivial
    · cases covered
  · split at covered
    · exact onIntegers_raises covered
    · exact onTexts_raises covered
    · split at covered
      · cases covered
        trivial
      · cases covered
    · cases covered

theorem unary_raises {operator : Operator} {operand : Value}
    {result : Except Exception Value}
    (covered : operator.unary operand = some result) :
    RaisesAfresh result := by
  unfold unary at covered
  split at covered
  · cases covered
    exact checked_raises _ _
  · cases covered

theorem fallback_raises
    (operator : Operator) (left : Value) (right : Option Value) :
    RaisesAfresh (operator.fallback left right) := by
  unfold fallback
  split
  · split
    · trivial
    · rfl
  · rfl

end Operator

section Arguments

variable (value : Value) (function : String)

theorem Value.asText_raises : RaisesAfresh (value.asText function) := by
  unfold Value.asText
  split
  · trivial
  · rfl

theorem Value.asList_raises : RaisesAfresh (value.asList function) := by
  unfold Value.asList
  split
  · trivial
  · rfl

theorem Value.asMap_raises : RaisesAfresh (value.asMap function) := by
  unfold Value.asMap
  split
  · trivial
  · rfl

end Arguments

namespace Native

theorem print_raises (machine : Machine) (values : List Value) :
    RaisesAfresh (print machine values) := by
  unfold print
  simp only
  split
  · trivial
  · rfl

theorem len_raises (value : Value) : RaisesAfresh (len value) := by
  unfold len
  split
  · trivial
  · trivial
  · trivial
  · rfl

theorem nth_raises (list index : Value) : RaisesAfresh (nth list index) := by
  refine (list.asList_raises "nth").bind fun nodes => ?_
  split
  · simp only
    split
    · trivial
    · rfl
  · rfl

theorem head_raises (list : Value) : RaisesAfresh (head list) := by
  refine (list.asList_raises "head").bind fun nodes => ?_
  split
  · trivial
  · rfl

theorem tail_raises (list : Value) : RaisesAfresh (tail list) := by
  refine (list.asList_raises "tail").bind fun nodes => ?_
  split
  · trivial
  · rfl

theorem pairs_raises (values : List Value) : RaisesAfresh (pairs values) := by
  fun_induction pairs values with
  | case1 key value rest inner =>
      exact (key.asText_raises "map").bind fun _ => inner.bind fun _ => trivial
  | case2 => trivial

theorem exceptionKind_raises (kind : Value) :
    RaisesAfresh (exceptionKind kind) := by
  refine (kind.asText_raises "exception").bind fun name => ?_
  split
  · trivial
  · rfl

/-- Whatever is raised has no trace, also when it is an exception that was
raised before. -/
theorem trace_raised (value : Value) : (raised value).trace = [] := by
  unfold raised
  split <;> rfl

theorem method_raises
    (machine : Machine)
    (typeName operatorName callable : Value) :
    RaisesAfresh (method machine typeName operatorName callable) := by
  refine (typeName.asText_raises "method").bind fun type => ?_
  refine (operatorName.asText_raises "method").bind fun name => ?_
  split
  · rfl
  · split
    · trivial
    · rfl

end Native

theorem Machine.resume_raises (machine : Machine) :
    RaisesAfresh machine.resume := by
  unfold Machine.resume
  split
  · trivial
  · rfl

namespace Builtin

theorem invoke_raises
    (builtin : Builtin) (machine : Machine) (arguments : List Value) :
    RaisesAfresh (builtin.invoke machine arguments) := by
  unfold Builtin.invoke
  simp only
  split
  · exact Native.print_raises _ _
  · exact (Native.len_raises _).bind fun _ => trivial
  · trivial
  · trivial
  · exact (Native.nth_raises _ _).bind fun _ => trivial
  · exact (Native.head_raises _).bind fun _ => trivial
  · exact (Native.tail_raises _).bind fun _ => trivial
  · exact (Value.asList_raises _ _).bind fun _ => trivial
  · split
    · exact (Native.pairs_raises _).bind fun _ => trivial
    · rfl
  · exact (Value.asMap_raises _ _).bind fun _ =>
      (Value.asText_raises _ _).bind fun _ => trivial
  · exact (Value.asMap_raises _ _).bind fun _ =>
      (Value.asText_raises _ _).bind fun _ => trivial
  · trivial
  · exact (Value.asText_raises _ _).bind fun _ => trivial
  · exact (Native.exceptionKind_raises _).bind fun _ =>
      (Value.asText_raises _ _).bind fun _ => trivial
  · exact Native.trace_raised _
  · exact (Native.method_raises _ _ _ _).bind fun _ => trivial
  · exact (Machine.resume_raises _).bind fun _ => trivial
  · trivial
  · trivial
  · rfl

theorem call_raises
    (builtin : Builtin) (machine : Machine) (arguments : List Value) :
    RaisesAfresh (builtin.call machine arguments) := by
  have checked : RaisesAfresh (builtin.checkArity arguments.length) := by
    unfold checkArity
    split
    · trivial
    · rfl
  exact checked.bind fun _ => builtin.invoke_raises machine arguments

end Builtin

/-! ## Operations -/

/-- The computation gives a good result or fails without a trace. -/
abbrev Untraced {α : Type} (good : α → Prop) (computation : Except Failure α) :
    Prop :=
  Ends (fun failure : Failure => failure.trace = []) good computation

namespace Frame

variable (frame : Frame)

theorem pop_untraced : Untraced (fun _ => True) frame.pop := by
  unfold Frame.pop
  split
  · rfl
  · trivial

theorem slot_untraced (slot : UInt8) :
    Untraced (fun _ => True) (frame.slot slot) := by
  unfold Frame.slot
  split
  · trivial
  · rfl

theorem setSlot_untraced (slot : UInt8) (value : Value) :
    Untraced (fun _ => True) (frame.setSlot slot value) := by
  unfold Frame.setSlot
  split
  · trivial
  · rfl

end Frame

namespace Machine

/-- No more frames are live on the second machine than on the first one. -/
def NoDeeper (machine after : Machine) : Prop :=
  after.frames.length ≤ machine.frames.length

variable (machine : Machine)

theorem top_untraced :
    Untraced (fun frame => ∃ below, machine.frames = frame :: below)
      machine.top := by
  unfold top
  split
  next frame below frames => exact ⟨below, frames⟩
  next => rfl

theorem noDeeper_setTop {frame : Frame} {below : List Frame}
    (frames : machine.frames = frame :: below)
    (changed : Frame) :
    machine.NoDeeper (machine.setTop changed) := by
  simp [NoDeeper, setTop_eq frames, frames]

theorem push_untraced (value : Value) :
    Untraced machine.NoDeeper (machine.push value) := by
  refine machine.top_untraced.bind ?_
  rintro frame ⟨below, frames⟩
  unfold Frame.push
  split
  · exact machine.noDeeper_setTop frames _
  · rfl

theorem pop_untraced :
    Untraced (fun popped => machine.NoDeeper popped.2) machine.pop := by
  refine machine.top_untraced.bind ?_
  rintro frame ⟨below, frames⟩
  refine frame.pop_untraced.bind ?_
  rintro ⟨value, popped⟩ _
  exact machine.noDeeper_setTop frames popped

/-- Pushing on a machine that has no more frames than the first one leaves it
so. -/
theorem NoDeeper.push {machine popped : Machine}
    (noDeeper : machine.NoDeeper popped)
    (value : Value) :
    Untraced machine.NoDeeper (popped.push value) :=
  (popped.push_untraced value).imp fun _ further =>
    Nat.le_trans further noDeeper

theorem openFrame_untraced (closure : Closure) (arguments : List Value) :
    Untraced (fun _ => True) (machine.openFrame closure arguments) := by
  rcases machine.openFrame_orFaults closure arguments
    with ⟨opened, opens, _⟩ | ⟨fault, faults⟩
  · rw [opens]
    trivial
  · rw [faults]
    rfl

theorem callValue_untraced (callee : Value) (arguments : List Value) :
    Untraced (fun _ => True) (machine.callValue callee arguments) := by
  unfold callValue
  split
  · simp only
    split
    · exact machine.openFrame_untraced _ _
    · rfl
  next builtin =>
    have raises := builtin.call_raises machine arguments
    split
    next result after called =>
      exact (after.push_untraced result).imp fun _ _ => trivial
    next exception called =>
      rw [called] at raises
      exact raises
  · rfl

theorem call_untraced (count : Nat) :
    Untraced (fun _ => True) (machine.call count) := by
  refine machine.top_untraced.bind fun frame _ => ?_
  split
  · rfl
  · exact callValue_untraced _ _ _

theorem pushResult_untraced
    {result : Except Exception Value}
    (raises : RaisesAfresh result) :
    Untraced (fun _ => True) (machine.pushResult result) := by
  unfold pushResult
  split
  · exact (machine.push_untraced _).imp fun _ _ => trivial
  · exact raises

theorem binaryOperator_untraced (operator : Operator) :
    Untraced (fun _ => True) (machine.binaryOperator operator) := by
  refine machine.pop_untraced.bind fun ⟨right, afterRight⟩ _ => ?_
  refine afterRight.pop_untraced.bind fun ⟨left, popped⟩ _ => ?_
  simp only
  split
  next covered => exact pushResult_untraced _ (Operator.binary_raises covered)
  next =>
    split
    next method _ =>
      refine (popped.push_untraced method).bind fun withMethod _ => ?_
      refine (withMethod.push_untraced left).bind fun withLeft _ => ?_
      refine (withLeft.push_untraced right).bind fun withRight _ => ?_
      exact withRight.call_untraced 2
    next => exact pushResult_untraced _ (Operator.fallback_raises _ _ _)

theorem negate_untraced : Untraced (fun _ => True) machine.negate := by
  refine machine.pop_untraced.bind fun ⟨operand, popped⟩ _ => ?_
  simp only
  split
  next covered => exact pushResult_untraced _ (Operator.unary_raises covered)
  next =>
    split
    next method _ =>
      refine (popped.push_untraced method).bind fun withMethod _ => ?_
      refine (withMethod.push_untraced operand).bind fun withOperand _ => ?_
      exact withOperand.call_untraced 1
    next => exact pushResult_untraced _ (Operator.fallback_raises _ _ _)

theorem perform_untraced (effect : String) :
    Untraced (fun _ => True) (machine.perform effect) := by
  refine machine.pop_untraced.bind fun ⟨payload, popped⟩ _ => ?_
  simp only
  split
  · rfl
  next dispatch _ =>
    refine (push_untraced _ _).bind fun withHandler _ => ?_
    refine (withHandler.push_untraced payload).bind fun withPayload _ => ?_
    refine (withPayload.call_untraced 1).bind fun called _ => ?_
    exact called.top_untraced.bind fun _ _ => trivial

theorem setHandler_untraced (effect : String) (distance : Nat) :
    Untraced machine.NoDeeper (machine.setHandler effect distance) := by
  refine machine.pop_untraced.bind fun ⟨value, popped⟩ noDeeper => ?_
  refine popped.top_untraced.bind fun frame _ => ?_
  split
  · exact noDeeper
  · rfl

theorem captureBoxes_untraced (frame : Frame) (slots : List UInt8) :
    Untraced (fun _ => True) (captureBoxes frame slots) := by
  induction slots with
  | nil => trivial
  | cons slot slots inner =>
      refine (frame.slot_untraced slot).bind fun value _ => ?_
      split
      · exact inner.bind fun _ _ => trivial
      · rfl

theorem makeClosure_untraced (index : UInt8) :
    Untraced machine.NoDeeper (machine.makeClosure index) := by
  refine machine.top_untraced.bind fun frame _ => ?_
  split
  · exact (captureBoxes_untraced frame _).bind fun _ _ => push_untraced _ _
  · rfl

theorem loadHeap_untraced (instruction : Instruction) :
    Untraced machine.NoDeeper (machine.loadHeap instruction) := by
  refine machine.top_untraced.bind fun frame _ => ?_
  refine (frame.slot_untraced _).bind fun value _ => ?_
  split
  · exact machine.push_untraced _
  · rfl

theorem storeHeap_untraced (instruction : Instruction) :
    Untraced machine.NoDeeper (machine.storeHeap instruction) := by
  refine machine.pop_untraced.bind fun ⟨value, popped⟩ noDeeper => ?_
  refine popped.top_untraced.bind fun frame _ => ?_
  refine (frame.slot_untraced _).bind fun held _ => ?_
  split
  · exact noDeeper
  · rfl

theorem abandon_untraced (link : EffectLink) (value : Value) :
    Untraced machine.NoDeeper (machine.abandon link value) := by
  refine (top_untraced _).bind ?_
  rintro frame ⟨below, frames⟩
  refine (push_untraced _ _).imp fun after noDeeper => ?_
  have unwound := noDeeper_setTop _ frames
    { frame with stack := oldest link.depth frame.stack, ip := link.target }
  refine Nat.le_trans noDeeper (Nat.le_trans unwound ?_)
  rw [length_oldest]
  exact Nat.min_le_right _ _

theorem operandName_untraced (template : Template) (index : UInt8) :
    Untraced (fun _ => True) (operandName template index) := by
  unfold operandName
  split
  · trivial
  · rfl

end Machine

/-! ## Instructions -/

/-- Whether the operation may open a frame and wait for its result: it is a
call, an operator or the performing of an effect. -/
def Opcode.mayWait (opcode : Opcode) : Bool :=
  opcode = .call || opcode = .perform || (Operator.ofOpcode? opcode).isSome

/-- What an instruction may lead to. Only some open frames; and when the run
ends, what outlives it is as before. -/
def Flow.Follows (instruction : Instruction) (machine : Machine) : Flow → Prop
  | .onward after => instruction.opcode.mayWait ∨ machine.NoDeeper after
  | .finished _ final => ∃ handlers ⊆ machine.handlers,
      final = { machine with frames :=
        machine.frames.tail, handlers := handlers }

namespace Machine

variable (machine : Machine) {instruction : Instruction}

theorem returnValue_untraced :
    Untraced (Flow.Follows instruction machine) machine.returnValue := by
  refine machine.top_untraced.bind ?_
  rintro frame ⟨below, frames⟩
  split
  · rfl
  next value stackEq =>
    have fewer : machine.frames.tail.length ≤ machine.frames.length := by simp
    simp only
    split
    · refine (abandon_untraced _ _ _).bind fun after noDeeper => ?_
      exact .inr (Nat.le_trans noDeeper fewer)
    · split
      · exact ⟨_, List.dropWhile_subset _, rfl⟩
      · refine (push_untraced _ _).bind fun after noDeeper => ?_
        exact .inr (Nat.le_trans noDeeper fewer)
  · rfl

/-- Executing an instruction fails without a trace or leads to what it may lead
to. -/
theorem execute_untraced (instruction : Instruction) :
    Untraced (Flow.Follows instruction machine)
      (machine.execute instruction) := by
  have onward {computation : Except Failure Machine}
      (untraced : Untraced machine.NoDeeper computation) :
      Untraced (Flow.Follows instruction machine)
        (computation >>= fun after => pure (Flow.onward after)) :=
    untraced.bind fun _ noDeeper => .inr noDeeper
  have waiting {computation : Except Failure Machine}
      (waits : instruction.opcode.mayWait)
      (untraced : Untraced (fun _ => True) computation) :
      Untraced (Flow.Follows instruction machine)
        (computation >>= fun after => pure (Flow.onward after)) :=
    untraced.bind fun _ _ => .inl waits
  unfold execute
  refine machine.top_untraced.bind ?_
  rintro frame ⟨below, frames⟩
  have moved (changed : Frame) :
      Flow.Follows instruction machine (.onward (machine.setTop changed)) :=
    .inr (machine.noDeeper_setTop frames changed)
  simp only
  split
  next =>
    split
    · exact onward (machine.push_untraced _)
    · rfl
  next => exact onward (machine.push_untraced _)
  next => exact onward (machine.push_untraced _)
  next => exact onward (machine.push_untraced _)
  next => exact (frame.slot_untraced _).bind fun _ _ =>
    onward (machine.push_untraced _)
  next =>
    refine frame.pop_untraced.bind ?_
    rintro ⟨value, popped⟩ _
    exact (popped.setSlot_untraced _ _).bind fun stored _ => moved stored
  next => exact onward (machine.loadHeap_untraced _)
  next => exact onward (machine.storeHeap_untraced _)
  next =>
    refine (operandName_untraced _ _).bind fun name _ => ?_
    split
    · exact onward (machine.push_untraced _)
    · rfl
  next =>
    refine (operandName_untraced _ _).bind fun name _ => ?_
    exact machine.pop_untraced.bind fun _ noDeeper => .inr noDeeper
  next => exact machine.pop_untraced.bind fun _ noDeeper => .inr noDeeper
  next =>
    split
    · exact moved _
    · rfl
  next => exact moved _
  next =>
    refine frame.pop_untraced.bind ?_
    rintro ⟨condition, popped⟩ _
    split
    · exact moved _
    · exact moved _
  next =>
    split
    · exact moved _
    · rfl
  next isCall => exact waiting (by rw [isCall]; rfl) (machine.call_untraced _)
  next => exact machine.returnValue_untraced
  next isOperator =>
    exact waiting (by rw [isOperator]; rfl) (machine.binaryOperator_untraced _)
  next isOperator =>
    exact waiting (by rw [isOperator]; rfl) (machine.binaryOperator_untraced _)
  next isOperator =>
    exact waiting (by rw [isOperator]; rfl) (machine.binaryOperator_untraced _)
  next isOperator =>
    exact waiting (by rw [isOperator]; rfl) (machine.binaryOperator_untraced _)
  next isOperator =>
    exact waiting (by rw [isOperator]; rfl) (machine.binaryOperator_untraced _)
  next isOperator =>
    exact waiting (by rw [isOperator]; rfl) (machine.binaryOperator_untraced _)
  next isOperator =>
    exact waiting (by rw [isOperator]; rfl) (machine.binaryOperator_untraced _)
  next =>
    exact machine.pop_untraced.bind fun _ noDeeper => onward (noDeeper.push _)
  next isOperator =>
    exact waiting (by rw [isOperator]; rfl) machine.negate_untraced
  next => exact onward (machine.makeClosure_untraced _)
  next =>
    exact (operandName_untraced _ _).bind fun name _ =>
      onward (machine.setHandler_untraced _ _)
  next isEffect =>
    exact (operandName_untraced _ _).bind fun name _ =>
      waiting (by rw [isEffect]; rfl) (machine.perform_untraced name)
  next => exact .inr (Nat.le_refl _)
  next => exact .inr (Nat.le_refl _)

end Machine

end EffectScript
