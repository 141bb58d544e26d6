import EffectScript.Proofs.Revision
import Mathlib.Data.List.Basic

/-!
# Debug tables do not influence execution

Erasing the debug tables of all functions in a machine commutes with every
operation of the machine. The tables are looked at in one place only, where a
failure that ends the run is given its trace; and there they give nothing but
the line numbers. So two machines that are equal after erasure stay so step by
step, and their runs end after the same count of steps, in the same way up to
debug tables and line numbers.
-/

namespace EffectScript

open Outcome

/-! ## Machines without debug tables -/

/-- A function is left with an empty debug table. -/
def Revision.erasure : Revision where
  revise template := { template with debug := {} }
  name_revise _ := rfl

/-- The value with empty debug tables in all functions in it. -/
abbrev Value.withoutDebug : Value → Value :=
  Value.revised .erasure

/-- The function with empty debug tables, and so the functions in its constant
pool. -/
abbrev Template.withoutDebug : Template → Template :=
  Template.revised .erasure

/-- The closure of the function with empty debug tables. -/
abbrev Closure.withoutDebug : Closure → Closure :=
  Closure.revised .erasure

namespace Template

variable (template : Template)

@[simp]
theorem arity_withoutDebug : template.withoutDebug.arity = template.arity := by
  cases template
  rfl

@[simp]
theorem locals_withoutDebug :
    template.withoutDebug.locals = template.locals := by
  cases template
  rfl

@[simp]
theorem code_withoutDebug : template.withoutDebug.code = template.code := by
  cases template
  rfl

@[simp]
theorem debug_withoutDebug : template.withoutDebug.debug = {} := by
  cases template
  rfl

@[simp]
theorem capturesOuter_withoutDebug :
    template.withoutDebug.capturesOuter = template.capturesOuter := by
  cases template
  rfl

@[simp]
theorem capturesInner_withoutDebug :
    template.withoutDebug.capturesInner = template.capturesInner := by
  cases template
  rfl

@[simp]
theorem heapSlots_withoutDebug :
    template.withoutDebug.heapSlots = template.heapSlots := by
  cases template
  rfl

@[simp]
theorem name?_withoutDebug (index : UInt8) :
    template.withoutDebug.name? index = template.name? index := by
  cases template
  rfl

@[simp]
theorem constant?_withoutDebug (index : UInt8) :
    template.withoutDebug.constant? index =
      (template.constant? index).map Value.withoutDebug := by
  rw [Template.withoutDebug, Template.revised_eq]
  exact List.getElem?_map

end Template

/-- The handler with its closure erased. -/
def Handler.withoutDebug (handler : Handler) : Handler :=
  { handler with closure := handler.closure.withoutDebug }

/-- The link with the handlers in its stash erased. -/
def EffectLink.withoutDebug (link : EffectLink) : EffectLink :=
  { link with stash := link.stash.map Handler.withoutDebug }

/-- The frame with everything in it erased. -/
def Frame.withoutDebug (frame : Frame) : Frame :=
  { closure := frame.closure.withoutDebug
    stack := frame.stack.map Value.withoutDebug
    slots := frame.slots.map Value.withoutDebug
    ip := frame.ip
    link := frame.link.map EffectLink.withoutDebug }

/-- The store with the contents of all boxes erased. -/
def Store.withoutDebug (store : Store) : Store :=
  { store with cells := store.cells.map Value.withoutDebug }

/-- The machine with empty debug tables in all functions that it holds. -/
def Machine.withoutDebug (machine : Machine) : Machine :=
  { limits := machine.limits
    frames := machine.frames.map Frame.withoutDebug
    handlers := machine.handlers.map Handler.withoutDebug
    globals := machine.globals.map fun entry => (entry.1, entry.2.withoutDebug)
    methods := machine.methods.map fun entry => (entry.1, entry.2.withoutDebug)
    store := machine.store.withoutDebug
    outlet := machine.outlet }

/-- The entry of a trace without its line. -/
def TraceEntry.withoutLine (entry : TraceEntry) : TraceEntry :=
  ⟨entry.function, 0⟩

/-- The failure without the lines in its trace; its kind, its message and the
functions stay. -/
def Failure.withoutLines : Failure → Failure
  | .exception raised =>
      .exception ⟨raised.kind, raised.message,
        raised.trace.map TraceEntry.withoutLine⟩
  | .unhandled effect trace =>
      .unhandled effect (trace.map TraceEntry.withoutLine)
  | .fault cause => .fault cause

/-- The ending with its value and its machine erased and without the lines of
its failure. -/
def Machine.Ending.withoutDebug (ending : Machine.Ending) : Machine.Ending :=
  { result := (ending.result.map Value.withoutDebug).mapError
      Failure.withoutLines
    machine := ending.machine.withoutDebug }

/-- A result and the machine after it, both erased. -/
def outcomeWithoutDebug (outcome : Value × Machine) : Value × Machine :=
  (outcome.1.withoutDebug, outcome.2.withoutDebug)

theorem oldest_map {α β : Type}
    (change : α → β) (count : Nat) (entries : List α) :
    oldest count (entries.map change) = (oldest count entries).map change := by
  simp only [oldest, List.length_map, List.map_drop]

/-! ## Stores -/

namespace Store

variable (store : Store)

@[simp]
theorem unused_withoutDebug : store.withoutDebug.unused = store.unused := rfl

@[simp]
theorem read_withoutDebug (cell : Nat) :
    store.withoutDebug.read cell = (store.read cell).withoutDebug := by
  simp only [read, withoutDebug, Array.getElem?_map]
  cases store.cells[cell]? <;> rfl

theorem write_withoutDebug (cell : Nat) (content : Value) :
    store.withoutDebug.write cell content.withoutDebug =
      (store.write cell content).withoutDebug := by
  simp only [write, withoutDebug, Array.map_setIfInBounds]

theorem newBox_withoutDebug (content : Value) :
    store.withoutDebug.newBox content.withoutDebug =
      ((store.newBox content).1, (store.newBox content).2.withoutDebug) := by
  simp only [newBox, withoutDebug, Array.size_map, Array.map_push]

theorem boxDisplay_withoutDebug (depth : Nat) :
    store.withoutDebug.boxDisplay depth = store.boxDisplay depth := by
  induction depth with
  | zero => rfl
  | succ depth inner =>
      funext cell
      rw [boxDisplay, boxDisplay, inner, read_withoutDebug,
        Value.reprWith_revised]

end Store

@[simp]
theorem Value.display_withoutDebug (store : Store) (value : Value) :
    value.withoutDebug.display store.withoutDebug = value.display store := by
  have size : store.withoutDebug.cells.size = store.cells.size := Array.size_map
  rw [Value.display, Value.display, size, Store.boxDisplay_withoutDebug,
    Value.displayWith_revised]

/-! ## The operand stack -/

namespace Frame

variable (frame : Frame)

@[simp]
theorem template_withoutDebug :
    frame.withoutDebug.template = frame.template.withoutDebug :=
  Closure.template_revised .erasure frame.closure

@[simp]
theorem stack_withoutDebug :
    frame.withoutDebug.stack = frame.stack.map Value.withoutDebug := rfl

@[simp]
theorem ip_withoutDebug : frame.withoutDebug.ip = frame.ip := rfl

/-- A frame without debug tables has no line. -/
@[simp]
theorem traceEntry_withoutDebug :
    frame.withoutDebug.traceEntry = frame.traceEntry.withoutLine := by
  simp only [traceEntry, template_withoutDebug, Template.name_revised,
    Template.debug_withoutDebug, TraceEntry.withoutLine]
  rfl

theorem push_withoutDebug (capacity : Nat) (value : Value) :
    frame.withoutDebug.push capacity value.withoutDebug =
      (frame.push capacity value).map withoutDebug := by
  simp only [push, stack_withoutDebug, List.length_map]
  split <;> rfl

theorem pop_withoutDebug :
    frame.withoutDebug.pop =
      frame.pop.map fun outcome =>
        (outcome.1.withoutDebug, outcome.2.withoutDebug) := by
  obtain ⟨closure, stack, slots, ip, link⟩ := frame
  cases stack <;> rfl

theorem slot_withoutDebug (slot : UInt8) :
    frame.withoutDebug.slot slot =
      (frame.slot slot).map Value.withoutDebug := by
  simp only [Frame.slot, template_withoutDebug, Template.name_revised]
  simp only [withoutDebug, List.getElem?_map]
  cases frame.slots[slot.toNat]? <;> rfl

theorem setSlot_withoutDebug (slot : UInt8) (value : Value) :
    frame.withoutDebug.setSlot slot value.withoutDebug =
      (frame.setSlot slot value).map withoutDebug := by
  simp only [Frame.setSlot, template_withoutDebug, Template.name_revised]
  simp only [withoutDebug, List.length_map]
  split
  · simp only [Except.map, withoutDebug, List.map_set]
  · rfl

end Frame

namespace Machine

variable (machine : Machine)

@[simp]
theorem limits_withoutDebug :
    machine.withoutDebug.limits = machine.limits := rfl

@[simp]
theorem frames_withoutDebug :
    machine.withoutDebug.frames = machine.frames.map Frame.withoutDebug := rfl

@[simp]
theorem handlers_withoutDebug :
    machine.withoutDebug.handlers = machine.handlers.map Handler.withoutDebug :=
      rfl

@[simp]
theorem store_withoutDebug :
    machine.withoutDebug.store = machine.store.withoutDebug := rfl

theorem cleared_withoutDebug :
    machine.withoutDebug.cleared = machine.cleared.withoutDebug := rfl

@[simp]
theorem find?_globals_withoutDebug (name : String) :
    machine.withoutDebug.globals.find? name =
      (machine.globals.find? name).map Value.withoutDebug :=
  Dictionary.find?_map machine.globals name

@[simp]
theorem find?_methods_withoutDebug (typeName : String) (operator : Operator) :
    machine.withoutDebug.methods.find? typeName operator =
      (machine.methods.find? typeName operator).map Value.withoutDebug :=
  MethodTable.find?_map machine.methods typeName operator

@[simp]
theorem top_withoutDebug :
    machine.withoutDebug.top = machine.top.map Frame.withoutDebug := by
  obtain ⟨limits, frames, handlers, globals, methods, store, outlet⟩ := machine
  cases frames <;> rfl

theorem setTop_withoutDebug (frame : Frame) :
    machine.withoutDebug.setTop frame.withoutDebug =
      (machine.setTop frame).withoutDebug := by
  simp only [setTop, withoutDebug, List.map_cons, List.map_tail]

theorem push_withoutDebug (value : Value) :
    machine.withoutDebug.push value.withoutDebug =
      (machine.push value).map withoutDebug := by
  simp only [push, top_withoutDebug, Outcome.bind_map, Outcome.map_bind,
    Frame.push_withoutDebug, limits_withoutDebug, setTop_withoutDebug]
  rfl

theorem pop_withoutDebug :
    machine.withoutDebug.pop = machine.pop.map outcomeWithoutDebug := by
  simp only [pop, top_withoutDebug, Outcome.bind_map, Outcome.map_bind,
    Frame.pop_withoutDebug, setTop_withoutDebug]
  rfl

/-! ## Calls -/

theorem placeCaptures_withoutDebug
    (owner : String)
    (captures : List (UInt8 × Nat))
    (slots : List Value) :
    placeCaptures owner captures (slots.map Value.withoutDebug) =
      (placeCaptures owner captures slots).map
        (List.map Value.withoutDebug) := by
  induction captures generalizing slots with
  | nil => rfl
  | cons capture captures inner =>
      obtain ⟨slot, cell⟩ := capture
      simp only [placeCaptures, List.length_map]
      split
      · rw [← inner, List.map_set]
        rfl
      · rfl

theorem boxSlots_withoutDebug
    (owner : String) (ownBoxes : List UInt8) (slots : List Value)
    (store : Store) :
    boxSlots owner ownBoxes (slots.map Value.withoutDebug) store.withoutDebug =
      (boxSlots owner ownBoxes slots store).map fun boxed =>
        (boxed.1.map Value.withoutDebug, boxed.2.withoutDebug) := by
  induction ownBoxes generalizing slots store with
  | nil => rfl
  | cons slot ownBoxes inner =>
      simp only [boxSlots, List.getElem?_map]
      cases slots[slot.toNat]? with
      | none => rfl
      | some value =>
          simp only [Option.map_some, Store.newBox_withoutDebug]
          rw [← inner, List.map_set]
          rfl

theorem initialSlots_withoutDebug (closure : Closure) (arguments : List Value) :
    closure.withoutDebug.initialSlots (arguments.map Value.withoutDebug) =
      (closure.initialSlots arguments).map Value.withoutDebug := by
  simp only [Closure.initialSlots, Closure.template_revised,
    Template.locals_withoutDebug, List.length_cons, List.length_map,
    List.map_append, List.map_cons, List.map_replicate, Value.revised]

theorem openFrame_withoutDebug (closure : Closure) (arguments : List Value) :
    machine.withoutDebug.openFrame closure.withoutDebug
        (arguments.map Value.withoutDebug) =
      (machine.openFrame closure arguments).map withoutDebug := by
  simp only [openFrame, frames_withoutDebug, List.length_map,
    limits_withoutDebug, Closure.template_revised, Template.name_revised,
    Template.capturesInner_withoutDebug, Template.heapSlots_withoutDebug,
    Closure.boxes_revised, initialSlots_withoutDebug,
    placeCaptures_withoutDebug, store_withoutDebug, Outcome.bind_map,
    boxSlots_withoutDebug]
  split
  · simp only [Outcome.map_bind]
    rfl
  · rfl

theorem findLink_withoutDebug (frames : List Frame) :
    (frames.map Frame.withoutDebug).findSome? (·.link) =
      (frames.findSome? (·.link)).map EffectLink.withoutDebug := by
  induction frames with
  | nil => rfl
  | cons frame frames inner =>
      obtain ⟨closure, stack, slots, ip, link⟩ := frame
      cases link with
      | none => exact inner
      | some link => rfl

theorem resume_withoutDebug :
    machine.withoutDebug.resume = machine.resume.map withoutDebug := by
  simp only [resume, frames_withoutDebug, handlers_withoutDebug,
    findLink_withoutDebug, oldest_map]
  cases machine.frames.findSome? (·.link) with
  | none => rfl
  | some link =>
      simp only [Option.map_some, Except.map, withoutDebug,
        EffectLink.withoutDebug, List.map_append]

end Machine

/-! ## Native functions -/

namespace Native

variable (machine : Machine)

theorem print_withoutDebug (values : List Value) :
    print machine.withoutDebug (values.map Value.withoutDebug) =
      (print machine values).map outcomeWithoutDebug := by
  simp only [print, List.map_map, Function.comp_def, Machine.store_withoutDebug,
    Value.display_withoutDebug]
  rw [show machine.withoutDebug.outlet = machine.outlet from rfl]
  split <;> rfl

theorem method_withoutDebug (typeName operatorName callable : Value) :
    method machine.withoutDebug typeName.withoutDebug operatorName.withoutDebug
        callable.withoutDebug =
      (method machine typeName operatorName callable).map
        Machine.withoutDebug := by
  simp only [method, Value.asText_revised, Value.isMethod_revised,
    Value.typeName_revised, Outcome.map_bind]
  congr 1
  funext type
  congr 1
  funext name
  cases Operator.ofName? name with
  | none => rfl
  | some operator =>
      simp only
      split
      · simp only [pure, Except.pure, Except.map, Machine.withoutDebug,
          MethodTable.define_map]
      · rfl

end Native

namespace Builtin

variable (builtin : Builtin) (machine : Machine) (arguments : List Value)

theorem invoke_withoutDebug
    (accepted : builtin.arity.accepts arguments.length) :
    builtin.invoke machine.withoutDebug (arguments.map Value.withoutDebug) =
      (builtin.invoke machine arguments).map outcomeWithoutDebug := by
  have one (count : arguments.length = 1) := List.length_eq_one_iff.1 count
  have two (count : arguments.length = 2) := List.length_eq_two.1 count
  have three (count : arguments.length = 3) := List.length_eq_three.1 count
  cases builtin with
  | print => exact Native.print_withoutDebug machine arguments
  | len =>
      obtain ⟨value, rfl⟩ := one (beq_iff_eq.1 accepted)
      simp only [invoke, List.map_cons, List.map_nil, Native.len_revised,
        Outcome.bind_map, Outcome.map_bind]
      rfl
  | str =>
      obtain ⟨value, rfl⟩ := one (beq_iff_eq.1 accepted)
      simp only [invoke, List.map_cons, List.map_nil,
        Machine.store_withoutDebug, Value.display_withoutDebug]
      rfl
  | list =>
      have nodes := Chain.prepend_revised .erasure machine.store.unused
        arguments []
      simp only [invoke, Machine.store_withoutDebug, Store.unused_withoutDebug,
        List.length_map, Except.map, outcomeWithoutDebug, Value.revised,
        nodesRevised_eq_map]
      exact congrArg (fun nodes => Except.ok (Value.list nodes, _)) nodes
  | nth =>
      obtain ⟨items, index, rfl⟩ := two (beq_iff_eq.1 accepted)
      simp only [invoke, List.map_cons, List.map_nil, Native.nth_revised,
        Outcome.bind_map, Outcome.map_bind]
      rfl
  | head =>
      obtain ⟨items, rfl⟩ := one (beq_iff_eq.1 accepted)
      simp only [invoke, List.map_cons, List.map_nil, Native.head_revised,
        Outcome.bind_map, Outcome.map_bind]
      rfl
  | tail =>
      obtain ⟨items, rfl⟩ := one (beq_iff_eq.1 accepted)
      simp only [invoke, List.map_cons, List.map_nil, Native.tail_revised,
        Outcome.bind_map, Outcome.map_bind]
      rfl
  | cons =>
      obtain ⟨first, rest, rfl⟩ := two (beq_iff_eq.1 accepted)
      simp only [invoke, List.map_cons, List.map_nil, Value.asList_revised,
        Outcome.bind_map, Outcome.map_bind]
      congr 1
      funext nodes
      simp only [pure, Except.pure, Except.map, outcomeWithoutDebug,
        Value.revised, nodesRevised_eq_map, Chain.cons, List.map_cons]
      rfl
  | map =>
      simp only [invoke, List.length_map]
      split
      · simp only [Native.pairs_revised, Outcome.bind_map, Outcome.map_bind]
        congr 1
        funext entries
        simp only [pure, Except.pure, Except.map, outcomeWithoutDebug,
          Value.revised, entriesRevised_eq_map, Dictionary.ofEntries_map]
        rfl
      · rfl
  | put =>
      obtain ⟨table, key, value, rfl⟩ := three (beq_iff_eq.1 accepted)
      simp only [invoke, List.map_cons, List.map_nil, Value.asMap_revised,
        Value.asText_revised, Outcome.bind_map, Outcome.map_bind]
      congr 1
      funext entries
      congr 1
      funext text
      simp only [pure, Except.pure, Except.map, outcomeWithoutDebug,
        Value.revised, entriesRevised_eq_map, Dictionary.insert_map]
      rfl
  | get =>
      obtain ⟨table, key, rfl⟩ := two (beq_iff_eq.1 accepted)
      simp only [invoke, List.map_cons, List.map_nil, Value.asMap_revised,
        Value.asText_revised, Outcome.bind_map, Outcome.map_bind,
        Dictionary.find?_map]
      congr 1
      funext entries
      congr 1
      funext text
      cases Dictionary.find? entries text <;> rfl
  | typeOf =>
      obtain ⟨value, rfl⟩ := one (beq_iff_eq.1 accepted)
      simp only [invoke, List.map_cons, List.map_nil, Value.typeName_revised]
      rfl
  | exception =>
      have counts : arguments.length = 1 ∨ arguments.length = 2 := by
        simp only [arity, Arity.accepts, Bool.and_eq_true, decide_eq_true_eq]
          at accepted
        omega
      rcases counts with count | count
      · obtain ⟨message, rfl⟩ := one count
        simp only [invoke, List.map_cons, List.map_nil, Value.asText_revised,
          Outcome.map_bind]
        rfl
      · obtain ⟨kindName, message, rfl⟩ := two count
        simp only [invoke, List.map_cons, List.map_nil, Native.exceptionKind,
          Value.asText_revised, Outcome.map_bind]
        rfl
  | raise =>
      obtain ⟨value, rfl⟩ := one (beq_iff_eq.1 accepted)
      cases value <;> rfl
  | method =>
      obtain ⟨typeName, operatorName, callable, rfl⟩ :=
        three (beq_iff_eq.1 accepted)
      simp only [invoke, List.map_cons, List.map_nil,
        Native.method_withoutDebug, Outcome.bind_map, Outcome.map_bind]
      rfl
  | resume =>
      obtain ⟨value, rfl⟩ := one (beq_iff_eq.1 accepted)
      simp only [invoke, List.map_cons, List.map_nil,
        Machine.resume_withoutDebug, Outcome.bind_map, Outcome.map_bind]
      rfl
  | listEq | mapEq =>
      obtain ⟨left, right, rfl⟩ := two (beq_iff_eq.1 accepted)
      simp only [invoke, List.map_cons, List.map_nil, Value.eq_revised]
      rfl

/-- Native functions do not look at debug tables. -/
theorem call_withoutDebug :
    builtin.call machine.withoutDebug (arguments.map Value.withoutDebug) =
      (builtin.call machine arguments).map outcomeWithoutDebug := by
  simp only [call, checkArity, List.length_map, Outcome.map_bind]
  split
  next accepted => exact invoke_withoutDebug builtin machine arguments accepted
  next => rfl

end Builtin

namespace Machine

variable (machine : Machine)

theorem callValue_withoutDebug (callee : Value) (arguments : List Value) :
    machine.withoutDebug.callValue callee.withoutDebug
        (arguments.map Value.withoutDebug) =
      (machine.callValue callee arguments).map withoutDebug := by
  cases callee with
  | closure closure =>
      simp only [callValue, Value.revised, Closure.template_revised,
        List.length_map, Template.arity_withoutDebug, Template.name_revised,
        openFrame_withoutDebug]
      split <;> rfl
  | builtin builtin =>
      simp only [callValue, Value.revised, Builtin.call_withoutDebug]
      cases builtin.call machine arguments with
      | error exception => rfl
      | ok outcome => exact push_withoutDebug outcome.2 outcome.1
  | _ => rfl

theorem call_withoutDebug (count : Nat) :
    machine.withoutDebug.call count =
      (machine.call count).map withoutDebug := by
  refine bind_commutes machine.top_withoutDebug fun frame => ?_
  simp only [Frame.stack_withoutDebug, ← List.map_drop, ← List.map_take,
    ← List.map_reverse]
  cases frame.stack.drop count with
  | nil => rfl
  | cons callee rest =>
      have beneath := machine.setTop_withoutDebug { frame with stack := rest }
      have called :=
        (machine.setTop { frame with stack := rest }).callValue_withoutDebug
        callee (frame.stack.take count).reverse
      rw [← beneath] at called
      exact called

/-! ## Operators -/

theorem pushResult_withoutDebug (result : Except Exception Value) :
    machine.withoutDebug.pushResult (result.map Value.withoutDebug) =
      (machine.pushResult result).map withoutDebug := by
  cases result with
  | ok value => exact machine.push_withoutDebug value
  | error exception => rfl

theorem binaryOperator_withoutDebug (operator : Operator) :
    machine.withoutDebug.binaryOperator operator =
      (machine.binaryOperator operator).map withoutDebug := by
  refine bind_commutes machine.pop_withoutDebug fun ⟨right, afterRight⟩ => ?_
  refine bind_commutes afterRight.pop_withoutDebug fun ⟨left, popped⟩ => ?_
  simp only [outcomeWithoutDebug, store_withoutDebug, Store.unused_withoutDebug,
    Operator.binary_revised, Operator.identitiesTaken_revised,
    Value.typeName_revised, find?_methods_withoutDebug]
  cases operator.binary popped.store.unused left right with
  | some result => exact (popped.take _).pushResult_withoutDebug result
  | none =>
      cases popped.methods.find? left.typeName operator with
      | some method =>
          refine bind_commutes (popped.push_withoutDebug method)
            fun withMethod => ?_
          refine bind_commutes (withMethod.push_withoutDebug left)
            fun withLeft => ?_
          refine bind_commutes (withLeft.push_withoutDebug right)
            fun withRight => ?_
          exact withRight.call_withoutDebug 2
      | none =>
          have refused := operator.fallback_revised .erasure left (some right)
          simp only [Option.map_none, Option.map_some] at refused ⊢
          rw [refused, pushResult_withoutDebug]

theorem negate_withoutDebug :
    machine.withoutDebug.negate = machine.negate.map withoutDebug := by
  refine bind_commutes machine.pop_withoutDebug fun ⟨operand, popped⟩ => ?_
  simp only [outcomeWithoutDebug, Operator.unary_revised,
    Value.typeName_revised, find?_methods_withoutDebug]
  cases Operator.neg.unary operand with
  | some result => exact popped.pushResult_withoutDebug result
  | none =>
      cases popped.methods.find? operand.typeName .neg with
      | some method =>
          refine bind_commutes (popped.push_withoutDebug method)
            fun withMethod => ?_
          refine bind_commutes (withMethod.push_withoutDebug operand)
            fun withOperand => ?_
          exact withOperand.call_withoutDebug 1
      | none =>
          have refused := Operator.neg.fallback_revised .erasure operand none
          simp only [Option.map_none] at refused ⊢
          rw [refused, pushResult_withoutDebug]

end Machine

/-! ## Effects -/

/-- The dispatch with all handlers erased. -/
def Dispatch.withoutDebug (dispatch : Dispatch) : Dispatch :=
  { handler := dispatch.handler.withoutDebug
    stash := dispatch.stash.map Handler.withoutDebug
    staying := dispatch.staying.map Handler.withoutDebug }

theorem Dispatch.find?_withoutDebug
    (effect : String) (handlers : List Handler) :
    Dispatch.find? effect (handlers.map Handler.withoutDebug) =
      (Dispatch.find? effect handlers).map withoutDebug := by
  induction handlers with
  | nil => rfl
  | cons handler older inner =>
      have groups : handler.withoutDebug.sameGroup ∘ Handler.withoutDebug =
          handler.sameGroup := rfl
      simp only [List.map_cons, Dispatch.find?, List.takeWhile_map,
        List.dropWhile_map, groups, inner, Option.map_map]
      rw [show handler.withoutDebug.effect = handler.effect from rfl]
      split
      · rfl
      · rw [Option.map_map]
        rfl

namespace Machine

variable (machine : Machine)

theorem setHandler_withoutDebug (effect : String) (distance : Nat) :
    machine.withoutDebug.setHandler effect distance =
      (machine.setHandler effect distance).map withoutDebug := by
  refine bind_commutes machine.pop_withoutDebug fun ⟨value, popped⟩ => ?_
  refine bind_commutes popped.top_withoutDebug fun frame => ?_
  cases value with
  | closure closure =>
      simp only [Value.revised, topIndex, frames_withoutDebug, List.length_map,
        Frame.stack_withoutDebug, Frame.ip_withoutDebug]
      rfl
  | _ => rfl

theorem tie_withoutDebug (link : EffectLink) :
    machine.withoutDebug.tie link.withoutDebug =
      (machine.tie link).map withoutDebug := by
  refine bind_commutes machine.top_withoutDebug fun frame => ?_
  exact congrArg Except.ok
    (machine.setTop_withoutDebug { frame with link := some link })

theorem perform_withoutDebug (effect : String) :
    machine.withoutDebug.perform effect =
      (machine.perform effect).map withoutDebug := by
  refine bind_commutes machine.pop_withoutDebug fun ⟨payload, popped⟩ => ?_
  simp only [outcomeWithoutDebug, handlers_withoutDebug,
    Dispatch.find?_withoutDebug]
  cases Dispatch.find? effect popped.handlers with
  | none => rfl
  | some dispatch =>
      let masked : Machine := { popped with handlers := dispatch.staying }
      refine bind_commutes
        (masked.push_withoutDebug (.closure dispatch.handler.closure))
        fun withHandler => ?_
      refine bind_commutes (withHandler.push_withoutDebug payload)
        fun withPayload => ?_
      refine bind_commutes (withPayload.call_withoutDebug 1) fun called => ?_
      rw [← tie_withoutDebug]
      simp only [topIndex, frames_withoutDebug, List.length_map,
        Dispatch.withoutDebug]
      rfl

theorem abandon_withoutDebug (link : EffectLink) (value : Value) :
    machine.withoutDebug.abandon link.withoutDebug value.withoutDebug =
      (machine.abandon link value).map withoutDebug := by
  let unwound : Machine := { machine with
    frames := oldest (link.handlerFrame + 1) machine.frames
    handlers := oldest link.groupStart machine.handlers }
  have erased : ({ machine.withoutDebug with
      frames := oldest (link.handlerFrame + 1) machine.withoutDebug.frames
      handlers := oldest link.groupStart machine.withoutDebug.handlers } :
          Machine) =
        unwound.withoutDebug := by
    simp only [frames_withoutDebug, handlers_withoutDebug, oldest_map]
    rfl
  simp only [abandon, EffectLink.withoutDebug, erased]
  refine bind_commutes unwound.top_withoutDebug fun frame => ?_
  let completed : Frame :=
    { frame with stack := oldest link.depth frame.stack, ip := link.target }
  have landed : ({ frame.withoutDebug with
      stack := oldest link.depth frame.withoutDebug.stack, ip := link.target } :
          Frame) =
        completed.withoutDebug := by
    simp only [Frame.stack_withoutDebug, oldest_map]
    rfl
  rw [landed, setTop_withoutDebug]
  exact (unwound.setTop completed).push_withoutDebug value

end Machine

/-! ## Instructions -/

/-- What executing an instruction leads to, erased. -/
def Flow.withoutDebug : Flow → Flow
  | .onward machine => .onward machine.withoutDebug
  | .finished value machine => .finished value.withoutDebug machine.withoutDebug

namespace Machine

variable (machine : Machine)

/-- An operation of the machine and nothing else. -/
theorem onward_withoutDebug
    {first second : Except Failure Machine}
    (commutes : second = first.map withoutDebug) :
    (second >>= fun after => pure (Flow.onward after)) =
      (first >>= fun after => pure (Flow.onward after)).map Flow.withoutDebug :=
  bind_commutes commutes fun _ => rfl

/-- The handlers of older frames are erased one by one. -/
theorem dropNewer_withoutDebug (handlers : List Handler) (count : Nat) :
    (handlers.map Handler.withoutDebug).dropWhile
        (fun handler => count ≤ handler.frame) =
      (handlers.dropWhile fun handler => count ≤ handler.frame).map
        Handler.withoutDebug := by
  rw [List.dropWhile_map]
  rfl

theorem returnValue_withoutDebug :
    machine.withoutDebug.returnValue =
      machine.returnValue.map Flow.withoutDebug := by
  refine bind_commutes machine.top_withoutDebug fun frame => ?_
  obtain ⟨closure, stack, slots, ip, link⟩ := frame
  match stack with
  | [] => rfl
  | [value] =>
      let returned : Machine := { machine with
        frames := machine.frames.tail
        handlers := machine.handlers.dropWhile fun handler =>
          machine.frames.tail.length ≤ handler.frame }
      have erased : ({ machine.withoutDebug with
          frames := machine.withoutDebug.frames.tail
          handlers := machine.withoutDebug.handlers.dropWhile fun handler =>
            machine.withoutDebug.frames.tail.length ≤ handler.frame } :
              Machine) =
            returned.withoutDebug := by
        simp only [frames_withoutDebug, handlers_withoutDebug, ← List.map_tail,
          List.length_map, dropNewer_withoutDebug]
        rfl
      simp only [Frame.withoutDebug, List.map_cons, List.map_nil, erased]
      cases link with
      | some link =>
          exact onward_withoutDebug (returned.abandon_withoutDebug link value)
      | none =>
          simp only [Option.map_none, frames_withoutDebug, ← List.map_tail,
            List.isEmpty_map]
          split
          · rfl
          · exact onward_withoutDebug (returned.push_withoutDebug value)
  | value :: next :: remaining =>
      simp only [Frame.withoutDebug, List.map_cons, Frame.template,
        Closure.template_revised, Template.name_revised, List.length_cons,
        List.length_map]
      rfl

theorem captureBoxes_withoutDebug (frame : Frame) (slots : List UInt8) :
    captureBoxes frame.withoutDebug slots = captureBoxes frame slots := by
  induction slots with
  | nil => rfl
  | cons slot slots inner =>
      simp only [captureBoxes, Frame.slot_withoutDebug, Outcome.bind_map, inner,
        Frame.template_withoutDebug, Template.name_revised]
      congr 1
      funext value
      cases value <;> rfl

theorem makeClosure_withoutDebug (index : UInt8) :
    machine.withoutDebug.makeClosure index =
      (machine.makeClosure index).map withoutDebug := by
  refine bind_commutes machine.top_withoutDebug fun frame => ?_
  simp only [Frame.template_withoutDebug, Template.constant?_withoutDebug]
  cases frame.template.constant? index with
  | none => rfl
  | some value =>
      cases value with
      | function identity template =>
          simp only [Option.map_some, Value.revised,
            Template.capturesOuter_withoutDebug, captureBoxes_withoutDebug,
            Outcome.map_bind, ← push_withoutDebug]
          rfl
      | _ => rfl

theorem loadHeap_withoutDebug (instruction : Instruction) :
    machine.withoutDebug.loadHeap instruction =
      (machine.loadHeap instruction).map withoutDebug := by
  refine bind_commutes machine.top_withoutDebug fun frame => ?_
  refine bind_commutes (frame.slot_withoutDebug _) fun held => ?_
  cases held with
  | box cell =>
      simp only [Value.revised, store_withoutDebug, Store.read_withoutDebug,
        push_withoutDebug]
  | _ => rfl

theorem storeHeap_withoutDebug (instruction : Instruction) :
    machine.withoutDebug.storeHeap instruction =
      (machine.storeHeap instruction).map withoutDebug := by
  refine bind_commutes machine.pop_withoutDebug fun ⟨value, popped⟩ => ?_
  refine bind_commutes popped.top_withoutDebug fun frame => ?_
  refine bind_commutes (frame.slot_withoutDebug _) fun held => ?_
  cases held with
  | box cell =>
      simp only [Value.revised, store_withoutDebug, Store.write_withoutDebug]
      rfl
  | _ => rfl

theorem operandName_withoutDebug (template : Template) (index : UInt8) :
    operandName template.withoutDebug index =
      (operandName template index).map id := by
  simp only [operandName, Template.name?_withoutDebug, Template.name_revised]
  cases template.name? index <;> rfl

theorem setGlobal_withoutDebug (name : String) (value : Value) :
    ({ machine.withoutDebug with
        globals := machine.withoutDebug.globals.insert name
          value.withoutDebug } : Machine) =
      ({ machine with globals := machine.globals.insert name value } :
        Machine).withoutDebug := by
  simp only [withoutDebug, Dictionary.insert_map]

/-- Going on at another offset of a frame. -/
theorem goTo_withoutDebug (frame : Frame) (offset : Nat) :
    (pure
      (Flow.onward (machine.withoutDebug.setTop
        { frame.withoutDebug with ip := offset })) :
        Except Failure Flow) =
      (pure (Flow.onward (machine.setTop { frame with ip := offset })) :
        Except Failure Flow).map Flow.withoutDebug :=
  congrArg (Except.ok ∘ Flow.onward)
    (machine.setTop_withoutDebug { frame with ip := offset })

/-- Every instruction does the same without debug tables: it fails in the same
way or goes on accordingly. -/
theorem execute_withoutDebug (instruction : Instruction) :
    machine.withoutDebug.execute instruction =
      (machine.execute instruction).map Flow.withoutDebug := by
  obtain ⟨offset, opcode, operands⟩ := instruction
  refine bind_commutes machine.top_withoutDebug fun frame => ?_
  simp only [Frame.template_withoutDebug]
  cases opcode with
  | loadConst =>
      simp only [Template.constant?_withoutDebug]
      cases frame.template.constant? _ with
      | none => rfl
      | some value =>
          exact onward_withoutDebug (machine.push_withoutDebug value)
  | pushNil => exact onward_withoutDebug (machine.push_withoutDebug .nil)
  | pushTrue =>
      exact onward_withoutDebug (machine.push_withoutDebug (.bool true))
  | pushFalse =>
      exact onward_withoutDebug (machine.push_withoutDebug (.bool false))
  | loadLocal =>
      refine bind_commutes (frame.slot_withoutDebug _) fun value => ?_
      exact onward_withoutDebug (machine.push_withoutDebug value)
  | storeLocal =>
      refine bind_commutes frame.pop_withoutDebug ?_
      rintro ⟨value, popped⟩
      refine bind_commutes (popped.setSlot_withoutDebug _ value)
        fun stored => ?_
      exact congrArg (Except.ok ∘ Flow.onward)
        (machine.setTop_withoutDebug stored)
  | loadHeap => exact onward_withoutDebug (machine.loadHeap_withoutDebug _)
  | storeHeap => exact onward_withoutDebug (machine.storeHeap_withoutDebug _)
  | loadGlobal =>
      refine bind_commutes (operandName_withoutDebug _ _) fun name => ?_
      simp only [id, find?_globals_withoutDebug]
      cases machine.globals.find? name with
      | none => rfl
      | some value =>
          exact onward_withoutDebug (machine.push_withoutDebug value)
  | storeGlobal =>
      refine bind_commutes (operandName_withoutDebug _ _) fun name => ?_
      refine bind_commutes machine.pop_withoutDebug ?_
      rintro ⟨value, popped⟩
      exact congrArg (Except.ok ∘ Flow.onward)
        (popped.setGlobal_withoutDebug name value)
  | pop => exact bind_commutes machine.pop_withoutDebug fun _ => rfl
  | swap =>
      obtain ⟨closure, stack, slots, ip, link⟩ := frame
      rcases stack with _ | ⟨first, _ | ⟨second, rest⟩⟩
      · rfl
      · rfl
      · exact congrArg (Except.ok ∘ Flow.onward)
          (machine.setTop_withoutDebug
            ⟨closure, second :: first :: rest, slots, ip, link⟩)
  | jump => exact machine.goTo_withoutDebug frame _
  | jumpIfFalse =>
      refine bind_commutes frame.pop_withoutDebug ?_
      rintro ⟨condition, popped⟩
      simp only [Value.isTruthy_revised, Frame.ip_withoutDebug]
      split
      · exact machine.goTo_withoutDebug popped popped.ip
      · exact machine.goTo_withoutDebug popped _
  | loop =>
      by_cases inside : Instruction.short ⟨offset, .loop, operands⟩ ≤ frame.ip
      · simp only [if_pos inside]
        exact (if_pos inside).trans (machine.goTo_withoutDebug frame _)
      · simp only [if_neg inside]
        exact if_neg inside
  | call => exact onward_withoutDebug (machine.call_withoutDebug _)
  | «return» => exact machine.returnValue_withoutDebug
  | add => exact onward_withoutDebug (machine.binaryOperator_withoutDebug .add)
  | sub => exact onward_withoutDebug (machine.binaryOperator_withoutDebug .sub)
  | mul => exact onward_withoutDebug (machine.binaryOperator_withoutDebug .mul)
  | div => exact onward_withoutDebug (machine.binaryOperator_withoutDebug .div)
  | eq => exact onward_withoutDebug (machine.binaryOperator_withoutDebug .eq)
  | lt => exact onward_withoutDebug (machine.binaryOperator_withoutDebug .lt)
  | gt => exact onward_withoutDebug (machine.binaryOperator_withoutDebug .gt)
  | not =>
      refine bind_commutes machine.pop_withoutDebug ?_
      rintro ⟨value, popped⟩
      simp only [outcomeWithoutDebug, Value.isTruthy_revised]
      exact onward_withoutDebug (popped.push_withoutDebug (.bool _))
  | neg => exact onward_withoutDebug machine.negate_withoutDebug
  | makeClosure =>
      exact onward_withoutDebug (machine.makeClosure_withoutDebug _)
  | setHandler =>
      refine bind_commutes (operandName_withoutDebug _ _) fun name => ?_
      exact onward_withoutDebug (machine.setHandler_withoutDebug name _)
  | perform =>
      refine bind_commutes (operandName_withoutDebug _ _) fun name => ?_
      exact onward_withoutDebug (machine.perform_withoutDebug name)
  | popHandlers =>
      simp only [handlers_withoutDebug, ← List.map_drop]
      rfl
  | comment => rfl

end Machine

/-! ## Steps and runs -/

/-- The lines of a trace take no part in where further calls go. -/
theorem Failure.withoutLines_withCalls
    (failure : Failure) (calls : List TraceEntry) :
    (failure.withCalls calls).withoutLines =
      failure.withoutLines.withCalls (calls.map TraceEntry.withoutLine) := by
  cases failure <;> simp only [withCalls, withoutLines, List.map_append]

/-- What a step leads to, erased. -/
def Step.withoutDebug : Step → Step
  | .running machine => .running machine.withoutDebug
  | .finished value machine => .finished value.withoutDebug machine.withoutDebug
  | .failed failure machine => .failed failure.withoutLines machine.withoutDebug

/-- What a step leads to, without the lines of its failure. -/
def Step.withoutLines : Step → Step
  | .running machine => .running machine
  | .finished value machine => .finished value machine
  | .failed failure machine => .failed failure.withoutLines machine

/-- The ending without the lines of its failure. -/
def Machine.Ending.withoutLines (ending : Machine.Ending) : Machine.Ending :=
  { ending with result := ending.result.mapError Failure.withoutLines }

namespace Machine

variable (machine : Machine)

theorem fetch_withoutDebug :
    machine.withoutDebug.fetch =
      machine.fetch.map fun fetched => (fetched.1, fetched.2.withoutDebug) := by
  refine bind_commutes machine.top_withoutDebug fun frame => ?_
  simp only [Frame.template_withoutDebug, Template.code_withoutDebug,
    Frame.ip_withoutDebug]
  cases Instruction.decode frame.template.code frame.ip with
  | error fault => rfl
  | ok instruction =>
      exact congrArg (fun fetched => Except.ok (instruction, fetched))
        (machine.setTop_withoutDebug { frame with ip := instruction.next })

/-- The calls of an erased machine are the same ones without their lines. -/
theorem trace_withoutDebug :
    machine.withoutDebug.trace = machine.trace.map TraceEntry.withoutLine := by
  simp only [trace, frames_withoutDebug, List.map_map, Function.comp_def,
    Frame.traceEntry_withoutDebug]

/-- The one place where debug tables are looked at gives them to nothing but the
lines. -/
theorem fail_withoutDebug (failure : Failure) :
    (machine.withoutDebug.fail failure).withoutLines =
      (machine.fail failure).withoutDebug := by
  simp only [fail, Step.withoutLines, Step.withoutDebug,
    Failure.withoutLines_withCalls, trace_withoutDebug, List.map_map,
    cleared_withoutDebug]
  rfl

/-- A step of an erased machine is the erased step, up to the lines of a
failure. -/
theorem step_withoutDebug :
    machine.withoutDebug.step.withoutLines = machine.step.withoutDebug := by
  simp only [step, fetch_withoutDebug]
  cases machine.fetch with
  | error failure => exact machine.fail_withoutDebug failure
  | ok fetched =>
      obtain ⟨instruction, fetched⟩ := fetched
      simp only [Except.map, execute_withoutDebug]
      match fetched.execute instruction with
      | .ok (.onward next) => rfl
      | .ok (.finished value final) => rfl
      | .error failure => exact fetched.fail_withoutDebug failure

/-- The erased machine is loaded as the machine is, up to the lines of a
failure. -/
theorem load_withoutDebug (script : Template) :
    (machine.withoutDebug.load script.withoutDebug).withoutLines =
      (machine.load script).withoutDebug := by
  have opened := (machine.cleared.take 1).openFrame_withoutDebug
    ⟨machine.store.unused, script, []⟩ []
  have same : (machine.withoutDebug.cleared.take 1).openFrame
      ⟨machine.withoutDebug.store.unused, script.withoutDebug, []⟩ [] =
        ((machine.cleared.take 1).openFrame
          ⟨machine.store.unused, script, []⟩ []).map
          withoutDebug := opened
  simp only [load, same]
  cases (machine.cleared.take 1).openFrame
    ⟨machine.store.unused, script, []⟩ [] with
  | ok loaded => rfl
  | error failure => exact machine.cleared.fail_withoutDebug failure

/-- How the run ends that a step belongs to, when `later` says how it ends from
the next machine on. -/
def ending (later : Machine → Option Ending) : Step → Option Ending
  | .running next => later next
  | .finished value final => some ⟨.ok value, final⟩
  | .failed failure final => some ⟨.error failure, final⟩

/-- Steps that are the same up to lines end their runs in the same way if the
rest of the runs does. -/
theorem ending_withoutDebug {step other : Step}
    {later : Machine → Option Ending}
    (same : other.withoutLines = step.withoutDebug)
    (alike : ∀ next : Machine, (later next.withoutDebug).map
      Ending.withoutLines = (later next).map Ending.withoutDebug) :
    (ending later other).map Ending.withoutLines =
      (ending later step).map Ending.withoutDebug := by
  cases step with
  | running next =>
      cases other with
      | running erased =>
          cases same
          exact alike next
      | _ => cases same
  | finished value final =>
      cases other with
      | finished _ _ =>
          cases same
          rfl
      | _ => cases same
  | failed failure final =>
      cases other with
      | failed erased after =>
          injection same with sameFailure sameMachine
          exact congrArg₂
            (fun failure machine => some (Ending.mk (.error failure) machine))
            sameFailure sameMachine
      | _ => cases same

/-- A run of an erased machine is the erased run, up to the lines of its
failure. -/
theorem run_withoutDebug (bound : Nat) (machine : Machine) :
    (machine.withoutDebug.run bound).map Ending.withoutLines =
      (machine.run bound).map Ending.withoutDebug := by
  induction bound generalizing machine with
  | zero => rfl
  | succ bound later =>
      exact ending_withoutDebug machine.step_withoutDebug later

theorem interpret_withoutDebug (bound : Nat) (script : Template) :
    (machine.withoutDebug.interpret bound script.withoutDebug).map
        Ending.withoutLines =
      (machine.interpret bound script).map Ending.withoutDebug :=
  ending_withoutDebug (machine.load_withoutDebug script)
    (run_withoutDebug bound)

/-- Debug tables do not influence execution. Whatever the debug tables of two
scripts and of the functions that two machines hold, if nothing else tells them
apart, then for every count of steps either no run has ended by then or both
have: with the same value, output, globals and methods up to debug tables, or
with the same failure, the functions in its trace included, up to the lines in
the trace. -/
theorem debug_tables_do_not_influence_runs
    {first second : Machine} {script other : Template}
    (machines : first.withoutDebug = second.withoutDebug)
    (scripts : script.withoutDebug = other.withoutDebug)
    (bound : Nat) :
    (first.interpret bound script).map Ending.withoutDebug =
      (second.interpret bound other).map Ending.withoutDebug := by
  rw [← interpret_withoutDebug, ← interpret_withoutDebug, machines, scripts]

/-- A script that prints a function of its constant pool and then calls it, and
the call adds nil to a number. All instructions of both are of one line. -/
def addingNil (line : UInt32) : Template where
  name := "main"
  arity := 0
  locals := 1
  code := #[8, 0, 26, 0, 15, 1, 10, 26, 0, 15, 0, 16]
  constants :=
    [.function 0
      { name := "f"
        arity := 0
        locals := 1
        code := #[0, 0, 1, 17, 16]
        constants := [.int 1]
        names := []
        debug := { lines := Array.replicate 5 line, slotNames := [("f", 0)] }
        capturesOuter := []
        capturesInner := []
        heapSlots := [] }]
  names := ["print"]
  debug := { lines := Array.replicate 12 line }
  capturesOuter := []
  capturesInner := []
  heapSlots := []

/-- What a run printed and how it failed. -/
def Ending.failed? : Ending → Option (Outlet × Failure)
  | ⟨.error failure, machine⟩ => some (machine.outlet, failure)
  | ⟨.ok _, _⟩ => none

/-- The failure of the call as it is reported when all instructions are of one
line. -/
def nilAdded (line : UInt32) : Failure :=
  .exception ⟨.typeError, "cannot add int and nil",
    [⟨"f", line⟩, ⟨"main", line⟩]⟩

/-- With two different line tables the script prints the same, and the reports
of its failure differ in their lines only. -/
theorem debug_tables_do_not_influence_addingNil :
    ((fresh .standard (.collecting "")).interpret 20 (addingNil 3)).bind
      Ending.failed? =
        some (.collecting "<fn f>\n", nilAdded 3) ∧
      ((fresh .standard (.collecting "")).interpret 20 (addingNil 8)).bind
          Ending.failed? =
        some (.collecting "<fn f>\n", nilAdded 8) ∧
      ((fresh .standard (.collecting "")).interpret 20 (addingNil 3)).map
          Ending.withoutDebug =
        ((fresh .standard (.collecting "")).interpret 20 (addingNil 8)).map
          Ending.withoutDebug := by
  have scripts : (addingNil 3).withoutDebug = (addingNil 8).withoutDebug := rfl
  refine ⟨by decide +kernel, by decide +kernel, ?_⟩
  exact debug_tables_do_not_influence_runs (Eq.refl _) scripts 20

end Machine

end EffectScript
