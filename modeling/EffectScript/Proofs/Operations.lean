import EffectScript.Proofs.Change

/-!
# What operations that succeed have done

For each operation of the machine there is one statement that says what it
needed and what it has done, given that it did not fail. An instruction that
does not fail has executed in one of the ways of `Executed`. Facts about
machines follow operation by operation, without another look at how they are
programmed.

Operators and effects consist of pushing, popping and calling. `Carries` says
what has to be known of these, and what the operators and effects keep follows
once and for all.
-/

namespace EffectScript

/-- What all handlers in force have, the chosen one has, and those that are
stashed or stay in force. -/
theorem Dispatch.forall_of_find? {property : Handler → Prop}
    {effect : String} {handlers : List Handler} {dispatch : Dispatch}
    (known : ∀ handler ∈ handlers, property handler)
    (found : Dispatch.find? effect handlers = some dispatch) :
    property dispatch.handler ∧ (∀ handler ∈ dispatch.stash, property handler) ∧
      ∀ handler ∈ dispatch.staying, property handler := by
  obtain ⟨newer, group, _, stashEq, _, _⟩ := Activation.Divided.of_find? found
  rw [← Dispatch.stash_append_staying found] at known
  obtain ⟨stashed, staying⟩ := List.forall_mem_append.1 known
  exact ⟨stashed dispatch.handler (by simp [stashEq]), stashed, staying⟩

namespace Machine

variable {machine after : Machine} {frame : Frame} {below : List Frame}
    {instruction : Instruction}

/-! ## The operand stack -/

theorem top_inversion (isTop : machine.top = .ok frame) :
    ∃ below, machine.frames = frame :: below := by
  unfold top at isTop
  split at isTop
  next newest below frames =>
    cases isTop
    exact ⟨below, frames⟩
  next => cases isTop

theorem push_eq_ok {value : Value}
    (frames : machine.frames = frame :: below)
    (pushed : machine.push value = .ok after) :
    frame.stack.length < machine.limits.stackCapacity ∧
      after = { machine with frames := frame.given value :: below } := by
  unfold Machine.push at pushed
  rw [top_eq frames, Outcome.ok_bind] at pushed
  obtain ⟨given, givenEq, rest⟩ := Outcome.bind_eq_ok.1 pushed
  unfold Frame.push at givenEq
  split at givenEq
  next room =>
    cases givenEq
    cases rest
    exact ⟨room, setTop_eq frames _⟩
  next => cases givenEq

/-- Pushing needs room for the value. -/
theorem push_inversion {value : Value}
    (pushed : machine.push value = .ok after) :
    ∃ frame below, machine.frames = frame :: below ∧
      frame.stack.length < machine.limits.stackCapacity ∧
      after = { machine with frames := frame.given value :: below } := by
  obtain ⟨frame, isTop, _⟩ := Outcome.bind_eq_ok.1 pushed
  obtain ⟨below, frames⟩ := top_inversion isTop
  exact ⟨frame, below, frames, push_eq_ok frames pushed⟩

/-- Popping needs a value. -/
theorem pop_inversion {value : Value}
    (popped : machine.pop = .ok (value, after)) :
    ∃ frame below stack, machine.frames = frame :: below ∧
      frame.stack = value :: stack ∧
      after = { machine with frames :=
        { frame with stack := stack } :: below } := by
  obtain ⟨frame, isTop, rest⟩ := Outcome.bind_eq_ok.1 popped
  obtain ⟨below, frames⟩ := top_inversion isTop
  obtain ⟨⟨held, remaining⟩, pops, result⟩ := Outcome.bind_eq_ok.1 rest
  unfold Frame.pop at pops
  split at pops
  · cases pops
  next first stack stackEq =>
    cases pops
    cases result
    exact ⟨frame, below, stack, frames, stackEq, setTop_eq frames _⟩

/-! ## Boxes, closures and handlers -/

theorem loadHeap_inversion (loaded : machine.loadHeap instruction = .ok after) :
    ∃ cell, machine.push (machine.store.read cell) = .ok after := by
  obtain ⟨_, _, rest⟩ := Outcome.bind_eq_ok.1 loaded
  obtain ⟨value, _, rest⟩ := Outcome.bind_eq_ok.1 rest
  cases value with
  | box cell => exact ⟨cell, rest⟩
  | _ => cases rest

theorem storeHeap_inversion
    (stored : machine.storeHeap instruction = .ok after) :
    ∃ value popped cell, machine.pop = .ok (value, popped) ∧
      after = { popped with store := popped.store.write cell value } := by
  obtain ⟨⟨value, popped⟩, pops, rest⟩ := Outcome.bind_eq_ok.1 stored
  obtain ⟨_, _, rest⟩ := Outcome.bind_eq_ok.1 rest
  obtain ⟨held, _, rest⟩ := Outcome.bind_eq_ok.1 rest
  cases held with
  | box cell =>
      cases rest
      exact ⟨value, popped, cell, pops, rfl⟩
  | _ => cases rest

/-- A closure is made of a function among the constants. -/
theorem makeClosure_inversion {index : UInt8}
    (made : machine.makeClosure index = .ok after) :
    ∃ frame below identity template boxes, machine.frames = frame :: below ∧
      frame.template.constant? index = some (.function identity template) ∧
      captureBoxes frame template.capturesOuter = .ok boxes ∧
      (machine.take 1).push (.closure ⟨machine.store.unused, template, boxes⟩) =
        .ok after := by
  obtain ⟨frame, isTop, rest⟩ := Outcome.bind_eq_ok.1 made
  obtain ⟨below, frames⟩ := top_inversion isTop
  split at rest
  next identity template constant =>
    obtain ⟨boxes, captures, pushes⟩ := Outcome.bind_eq_ok.1 rest
    exact ⟨frame, below, identity, template, boxes, frames, constant,
      captures, pushes⟩
  next => cases rest

/-- A handler is registered for a closure. -/
theorem setHandler_inversion {effect : String}
    {distance : Nat}
    (registered : machine.setHandler effect distance = .ok after) :
    ∃ closure popped frame below, machine.pop = .ok (.closure closure, popped) ∧
      popped.frames = frame :: below ∧
      after = { popped with
        handlers :=
          { effect := effect
            closure := closure
            frame := below.length
            depth := frame.stack.length
            target := frame.ip + distance } :: popped.handlers } := by
  obtain ⟨⟨value, popped⟩, pops, rest⟩ := Outcome.bind_eq_ok.1 registered
  obtain ⟨frame, isTop, rest⟩ := Outcome.bind_eq_ok.1 rest
  obtain ⟨below, frames⟩ := top_inversion isTop
  cases value with
  | closure closure =>
      cases rest
      exact ⟨closure, popped, frame, below, pops, frames, by
        simp [topIndex, frames]⟩
  | _ => cases rest

/-! ## Calls -/

/-- Opening a frame needs room for it. -/
theorem openFrame_inversion {closure : Closure}
    {arguments : List Value}
    (opened : machine.openFrame closure arguments = .ok after) :
    machine.frames.length < machine.limits.maxFrames ∧ ∃ captured slots store,
      placeCaptures closure.template.name
        (closure.template.capturesInner.zip closure.boxes)
        (closure.initialSlots arguments) = .ok captured ∧
      boxSlots closure.template.name
          (closure.template.heapSlots.filter fun slot =>
        !closure.template.capturesInner.contains slot) captured machine.store =
          .ok (slots, store) ∧
      after = { machine with
        frames := ⟨closure, [], slots, 0, none⟩ :: machine.frames, store :=
          store } := by
  unfold openFrame at opened
  split at opened
  next room =>
    obtain ⟨captured, capturedEq, rest⟩ := Outcome.bind_eq_ok.1 opened
    obtain ⟨⟨slots, store⟩, slotsEq, result⟩ := Outcome.bind_eq_ok.1 rest
    cases result
    exact ⟨room, captured, slots, store, capturedEq, slotsEq, rfl⟩
  next => cases opened

/-- A closure gets a frame, and a native function gives its result at once. -/
theorem callValue_inversion {callee : Value}
    {arguments : List Value}
    (called : machine.callValue callee arguments = .ok after) :
    (∃ closure, callee = .closure closure ∧
        arguments.length = closure.template.arity ∧
        machine.openFrame closure arguments = .ok after) ∨
      ∃ builtin result invoked, callee = .builtin builtin ∧
        builtin.call machine arguments = .ok (result, invoked) ∧
        invoked.push result = .ok after := by
  unfold callValue at called
  split at called
  next closure =>
    simp only at called
    split at called
    next arity => exact .inl ⟨closure, rfl, arity, called⟩
    next => cases called
  next builtin =>
    split at called
    next result invoked calls =>
      exact .inr ⟨builtin, result, invoked, rfl, calls, called⟩
    next => cases called
  next => cases called

theorem call_inversion {count : Nat} (called : machine.call count = .ok after) :
    ∃ frame below callee rest, machine.frames = frame :: below ∧
      frame.stack.drop count = callee :: rest ∧
      ({ machine with frames := { frame with stack := rest } :: below } :
        Machine).callValue callee
        (frame.stack.take count).reverse = .ok after := by
  obtain ⟨frame, isTop, rest⟩ := Outcome.bind_eq_ok.1 called
  obtain ⟨below, frames⟩ := top_inversion isTop
  split at rest
  · cases rest
  next callee others parts =>
    rw [setTop_eq frames] at rest
    exact ⟨frame, below, callee, others, frames, parts, rest⟩

/-- A run begins with a frame for the script. -/
theorem load_inversion {script : Template}
    (loads : machine.load script = .running after) :
    (machine.cleared.take 1).openFrame ⟨machine.store.unused, script, []⟩ [] =
      .ok after := by
  unfold load at loads
  simp only at loads
  split at loads
  next opened opens =>
    cases loads
    exact opens
  next failure _ => cases loads

/-! ## Running handlers -/

theorem tie_inversion {link : EffectLink}
    (tied : machine.tie link = .ok after) :
    ∃ frame below, machine.frames = frame :: below ∧
      after = { machine with frames :=
        { frame with link := some link } :: below } := by
  obtain ⟨frame, isTop, result⟩ := Outcome.bind_eq_ok.1 tied
  obtain ⟨below, frames⟩ := top_inversion isTop
  cases result
  exact ⟨frame, below, frames, setTop_eq frames _⟩

/-- Resuming brings back the handlers that the newest running handler took out
of force. -/
theorem resume_inversion (resumes : machine.resume = .ok after) :
    ∃ link, machine.frames.findSome? (·.link) = some link ∧
      after = { machine with
        frames := oldest (link.resumeInto + 1) machine.frames
        handlers := link.stash ++
          oldest link.groupStart machine.handlers } := by
  unfold resume at resumes
  split at resumes
  next link found =>
    cases resumes
    exact ⟨link, found, rfl⟩
  next => cases resumes

/-- Completing an attempt unwinds the frames and handlers above it. -/
theorem abandon_inversion {link : EffectLink}
    {value : Value}
    (abandoned : machine.abandon link value = .ok after) :
    ∃ frame below, oldest (link.handlerFrame + 1) machine.frames =
        frame :: below ∧
      ({ machine with
        frames := { frame with stack := oldest link.depth frame.stack, ip :=
          link.target } :: below
        handlers := oldest link.groupStart machine.handlers } : Machine).push
          value = .ok after := by
  obtain ⟨frame, isTop, pushes⟩ := Outcome.bind_eq_ok.1 abandoned
  obtain ⟨below, frames⟩ := top_inversion isTop
  have kept : oldest (link.handlerFrame + 1) machine.frames = frame ::
      below := frames
  simp only [setTop_eq frames] at pushes
  exact ⟨frame, below, kept, pushes⟩

/-! ## Operators and effects -/

/-- What operators and effects need of a property `holds` to lead from it to a
property `done`. The first one is about a machine and the values in flight,
which were popped or are about to be pushed, the next one first. -/
structure Carries
    (holds : Machine → List Value → Prop)
    (done : Machine → Prop) : Prop where
  pop {machine after : Machine} {value : Value} {values : List Value} :
    holds machine values → machine.pop = .ok (value, after) →
    holds after (value :: values)
  push {machine after : Machine} {value : Value} {values : List Value} :
    holds machine (value :: values) → machine.push value = .ok after →
    holds after values
  landed {machine : Machine} : holds machine [] → done machine
  call {machine after : Machine} {count : Nat} :
    holds machine [] → machine.call count = .ok after → done after
  scalar {machine : Machine} {result : Value} {values : List Value} :
    holds machine values → result.isScalar → holds machine [result]
  binary {machine : Machine} {operator : Operator} {left right result : Value} :
    holds machine [left, right] →
    operator.binary machine.store.unused left right = some (.ok result) →
    holds (machine.take (operator.identitiesTaken left right)) [result]
  method {machine : Machine} {typeName : String} {operator : Operator}
    {method : Value}
      {values : List Value} :
    holds machine values →
    machine.methods.find? typeName operator = some method →
    holds machine (method :: values)
  masked {machine : Machine} {effect : String} {dispatch : Dispatch}
    {values : List Value} :
    holds machine values →
    Dispatch.find? effect machine.handlers = some dispatch →
    holds { machine with handlers := dispatch.staying }
      (.closure dispatch.handler.closure :: values)
  tie {machine called after : Machine} {effect : String} {dispatch : Dispatch}
    {values : List Value}
      {link : EffectLink} :
    holds machine values →
    Dispatch.find? effect machine.handlers = some dispatch →
    link.stash = dispatch.stash → done called →
    called.tie link = .ok after → done after

namespace Carries

variable {holds : Machine → List Value → Prop} {done : Machine → Prop}
    (carries : Carries holds done)
include carries

theorem pushResult {result : Except Exception Value}
    (ready : ∀ value, result = .ok value → holds machine [value])
    (pushed : machine.pushResult result = .ok after) :
    done after := by
  unfold Machine.pushResult at pushed
  split at pushed
  · exact carries.landed (carries.push (ready _ rfl) pushed)
  · cases pushed

theorem binaryOperator {operator : Operator}
    (ready : holds machine [])
    (applied : machine.binaryOperator operator = .ok after) :
    done after := by
  obtain ⟨⟨right, afterRight⟩, popsRight, rest⟩ := Outcome.bind_eq_ok.1 applied
  obtain ⟨⟨left, popped⟩, popsLeft, rest⟩ := Outcome.bind_eq_ok.1 rest
  have operands := carries.pop (carries.pop ready popsRight) popsLeft
  simp only at rest
  split at rest
  next result ruled =>
    refine carries.pushResult (fun value gives => ?_) rest
    cases gives
    exact carries.binary operands ruled
  next =>
    split at rest
    next method found =>
      obtain ⟨withMethod, pushesMethod, rest⟩ := Outcome.bind_eq_ok.1 rest
      obtain ⟨withLeft, pushesLeft, rest⟩ := Outcome.bind_eq_ok.1 rest
      obtain ⟨withRight, pushesRight, calls⟩ := Outcome.bind_eq_ok.1 rest
      have pushed := carries.push (carries.method operands found) pushesMethod
      exact carries.call
        (carries.push (carries.push pushed pushesLeft) pushesRight) calls
    next =>
      exact carries.pushResult
        (fun _ gives => carries.scalar operands
          (Operator.isScalar_of_fallback gives)) rest

theorem negate
    (ready : holds machine [])
    (applied : machine.negate = .ok after) :
    done after := by
  obtain ⟨⟨operand, popped⟩, pops, rest⟩ := Outcome.bind_eq_ok.1 applied
  have held := carries.pop ready pops
  simp only at rest
  split at rest
  next result ruled =>
    refine carries.pushResult (fun value gives => ?_) rest
    cases gives
    exact carries.scalar held (Operator.isScalar_of_unary ruled)
  next =>
    split at rest
    next method found =>
      obtain ⟨withMethod, pushesMethod, rest⟩ := Outcome.bind_eq_ok.1 rest
      obtain ⟨withOperand, pushesOperand, calls⟩ := Outcome.bind_eq_ok.1 rest
      have pushed := carries.push (carries.method held found) pushesMethod
      exact carries.call (carries.push pushed pushesOperand) calls
    next =>
      exact carries.pushResult
        (fun _ gives => carries.scalar held
          (Operator.isScalar_of_fallback gives)) rest

theorem perform {effect : String}
    (ready : holds machine [])
    (performed : machine.perform effect = .ok after) :
    done after := by
  obtain ⟨⟨payload, popped⟩, pops, rest⟩ := Outcome.bind_eq_ok.1 performed
  have held := carries.pop ready pops
  simp only at rest
  split at rest
  · cases rest
  next dispatch found =>
    obtain ⟨withHandler, pushesHandler, rest⟩ := Outcome.bind_eq_ok.1 rest
    obtain ⟨withPayload, pushesPayload, rest⟩ := Outcome.bind_eq_ok.1 rest
    obtain ⟨called, calls, ties⟩ := Outcome.bind_eq_ok.1 rest
    have pushed := carries.push (carries.masked held found) pushesHandler
    exact carries.tie held found rfl
      (carries.call (carries.push pushed pushesPayload) calls) ties

end Carries

/-! ## Returning -/

/-- The machine without its newest frame and the handlers that this frame
registered. -/
def withoutNewest (machine : Machine) : Machine :=
  { machine with
    frames := machine.frames.tail
    handlers := machine.handlers.dropWhile fun handler =>
      machine.frames.tail.length ≤ handler.frame }

/-- A frame that answers an effect completes the attempt; another one gives its
value to the frame beneath it, or ends the run if there is none. -/
theorem returnValue_inversion {flow : Flow}
    (returned : machine.returnValue = .ok flow) :
    ∃ frame below value, machine.frames = frame :: below ∧
      frame.stack = [value] ∧
      ((∃ link completed, machine.withoutNewest.abandon link value =
        .ok completed ∧
          flow = .onward completed) ∨
        flow = .finished value machine.withoutNewest ∨
        ∃ pushed, machine.withoutNewest.push value = .ok pushed ∧
          flow = .onward pushed) := by
  obtain ⟨frame, isTop, rest⟩ := Outcome.bind_eq_ok.1 returned
  obtain ⟨below, frames⟩ := top_inversion isTop
  split at rest
  · cases rest
  next value stack =>
    refine ⟨frame, below, value, frames, stack, ?_⟩
    simp only at rest
    split at rest
    next link _ =>
      obtain ⟨completed, abandons, onward⟩ := Outcome.bind_eq_ok.1 rest
      cases onward
      exact .inl ⟨link, completed, abandons, rfl⟩
    next =>
      split at rest
      · cases rest
        exact .inr (.inl rfl)
      · obtain ⟨pushed, pushes, onward⟩ := Outcome.bind_eq_ok.1 rest
        cases onward
        exact .inr (.inr ⟨pushed, pushes, rfl⟩)
  · cases rest

/-! ## Executing -/

/-- What an instruction has done when it did not fail: there is one case for
each way of executing. The offset of the given frame, which is the newest, is
behind the instruction already. -/
inductive Executed
    (machine : Machine) (frame : Frame)
    (instruction : Instruction) : Flow → Prop
  | constant {value : Value} {after : Machine}
      (operation : instruction.opcode = .loadConst)
      (found : frame.template.constant? instruction.byte = some value)
      (pushes : machine.push value = .ok after) :
        Executed machine frame instruction (.onward after)
  | simple {value : Value} {after : Machine}
      (plain : value = .nil ∨ ∃ truth, value = .bool truth)
      (pushes : machine.push value = .ok after) :
        Executed machine frame instruction (.onward after)
  | loadLocal {value : Value} {after : Machine}
      (operation : instruction.opcode = .loadLocal)
      (reads : frame.slot instruction.byte = .ok value)
        (pushes : machine.push value = .ok after) :
      Executed machine frame instruction (.onward after)
  | storeLocal {value : Value} {popped stored : Frame}
      (operation : instruction.opcode = .storeLocal)
      (pops : frame.pop = .ok (value, popped))
      (stores : popped.setSlot instruction.byte value = .ok stored) :
      Executed machine frame instruction (.onward (machine.setTop stored))
  | loadHeap {after : Machine}
      (loads : machine.loadHeap instruction = .ok after) :
      Executed machine frame instruction (.onward after)
  | storeHeap {after : Machine}
      (stores : machine.storeHeap instruction = .ok after) :
      Executed machine frame instruction (.onward after)
  | loadGlobal {name : String} {value : Value} {after : Machine}
      (found : machine.globals.find? name = some value)
        (pushes : machine.push value = .ok after) :
      Executed machine frame instruction (.onward after)
  | storeGlobal {value : Value} {popped : Machine} (name : String)
      (pops : machine.pop = .ok (value, popped)) :
      Executed machine frame instruction
        (.onward { popped with globals := popped.globals.insert name value })
  | pop {value : Value} {popped : Machine}
      (pops : machine.pop = .ok (value, popped)) :
      Executed machine frame instruction (.onward popped)
  | swap {first second : Value} {rest : List Value}
      (stack : frame.stack = first :: second :: rest) :
      Executed machine frame instruction
        (.onward
          (machine.setTop { frame with stack := second :: first :: rest }))
  | jump : Executed machine frame instruction
      (.onward
        (machine.setTop { frame with ip := frame.ip + instruction.short }))
  | fallThrough {condition : Value} {popped : Frame}
      (pops : frame.pop = .ok (condition, popped)) :
      Executed machine frame instruction (.onward (machine.setTop popped))
  | branch {condition : Value} {popped : Frame}
      (pops : frame.pop = .ok (condition, popped)) :
      Executed machine frame instruction
        (.onward (machine.setTop
          { popped with ip := popped.ip + instruction.short }))
  | loop (operation : instruction.opcode = .loop) :
      Executed machine frame instruction
        (.onward
          (machine.setTop { frame with ip := frame.ip - instruction.short }))
  | call {after : Machine}
      (calls : machine.call instruction.byte.toNat = .ok after) :
      Executed machine frame instruction (.onward after)
  | finish {flow : Flow} (returns : machine.returnValue = .ok flow) :
      Executed machine frame instruction flow
  | operator {operator : Operator} {after : Machine}
      (operates : machine.binaryOperator operator = .ok after) :
      Executed machine frame instruction (.onward after)
  | invert {value : Value} {popped after : Machine}
      (pops : machine.pop = .ok (value, popped))
      (pushes : popped.push (.bool (!value.isTruthy)) = .ok after) :
      Executed machine frame instruction (.onward after)
  | negate {after : Machine} (negates : machine.negate = .ok after) :
      Executed machine frame instruction (.onward after)
  | makeClosure {after : Machine}
      (makes : machine.makeClosure instruction.byte = .ok after) :
      Executed machine frame instruction (.onward after)
  | setHandler {effect : String} {after : Machine}
      (registers : machine.setHandler effect instruction.trailingShort =
        .ok after) :
      Executed machine frame instruction (.onward after)
  | perform {effect : String} {after : Machine}
      (performs : machine.perform effect = .ok after) :
      Executed machine frame instruction (.onward after)
  | popHandlers : Executed machine frame instruction
      (.onward { machine with handlers :=
          machine.handlers.drop instruction.byte.toNat })
  | comment : Executed machine frame instruction (.onward machine)

/-- An instruction that does not fail has executed in one of the ways there
are. -/
theorem execute_inversion
    (frames : machine.frames = frame :: below)
    {flow : Flow}
    (executed : machine.execute instruction = .ok flow) :
    Executed machine frame instruction flow := by
  have onward {computation : Except Failure Machine}
      (goes : computation >>=
        (fun after => pure (Flow.onward after)) = .ok flow)
      (leads : ∀ {after}, computation = .ok after →
        Executed machine frame instruction (.onward after)) :
      Executed machine frame instruction flow := by
    obtain ⟨after, computed, result⟩ := Outcome.bind_eq_ok.1 goes
    cases result
    exact leads computed
  unfold execute at executed
  rw [top_eq frames, Outcome.ok_bind] at executed
  simp only at executed
  split at executed
  next operation =>
    split at executed
    next value found => exact onward executed (.constant operation found)
    next => cases executed
  next => exact onward executed (.simple (.inl rfl))
  next => exact onward executed (.simple (.inr ⟨true, rfl⟩))
  next => exact onward executed (.simple (.inr ⟨false, rfl⟩))
  next operation =>
    obtain ⟨value, reads, rest⟩ := Outcome.bind_eq_ok.1 executed
    exact onward rest (.loadLocal operation reads)
  next operation =>
    obtain ⟨⟨value, popped⟩, pops, rest⟩ := Outcome.bind_eq_ok.1 executed
    obtain ⟨stored, stores, result⟩ := Outcome.bind_eq_ok.1 rest
    cases result
    exact .storeLocal operation pops stores
  next => exact onward executed .loadHeap
  next => exact onward executed .storeHeap
  next =>
    obtain ⟨name, _, rest⟩ := Outcome.bind_eq_ok.1 executed
    split at rest
    next value found => exact onward rest (.loadGlobal found)
    next => cases rest
  next =>
    obtain ⟨name, _, rest⟩ := Outcome.bind_eq_ok.1 executed
    obtain ⟨⟨value, popped⟩, pops, result⟩ := Outcome.bind_eq_ok.1 rest
    cases result
    exact .storeGlobal name pops
  next =>
    obtain ⟨⟨value, popped⟩, pops, result⟩ := Outcome.bind_eq_ok.1 executed
    cases result
    exact .pop pops
  next =>
    split at executed
    next first second rest stack =>
      cases executed
      exact .swap stack
    next => cases executed
  next =>
    cases executed
    exact .jump
  next =>
    obtain ⟨⟨condition, popped⟩, pops, rest⟩ := Outcome.bind_eq_ok.1 executed
    split at rest
    · cases rest
      exact .fallThrough pops
    · cases rest
      exact .branch pops
  next operation =>
    split at executed
    · cases executed
      exact .loop operation
    · cases executed
  next => exact onward executed .call
  next => exact .finish executed
  -- The seven binary operators differ in the operator only.
  iterate 7 next => exact onward executed .operator
  next =>
    obtain ⟨⟨value, popped⟩, pops, rest⟩ := Outcome.bind_eq_ok.1 executed
    exact onward rest (.invert pops)
  next => exact onward executed .negate
  next => exact onward executed .makeClosure
  next =>
    obtain ⟨effect, _, rest⟩ := Outcome.bind_eq_ok.1 executed
    exact onward rest .setHandler
  next =>
    obtain ⟨effect, _, rest⟩ := Outcome.bind_eq_ok.1 executed
    exact onward rest .perform
  next =>
    cases executed
    exact .popHandlers
  next =>
    cases executed
    exact .comment

end Machine

end EffectScript
