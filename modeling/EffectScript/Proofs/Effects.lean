import EffectScript.Proofs.History
import EffectScript.Proofs.Operations

/-!
# Steps of effect instructions

What the instructions that make, register and call handlers do to the frames and
handlers of a machine, read off a step that goes on.
-/

namespace EffectScript

open Activation

/-- The handler that an instruction of a frame registers. -/
structure Registers
    (instruction : Instruction)
    (frame : Frame) (below : List Frame) (handler : Handler) : Prop where
  operation : instruction.opcode = .setHandler
  effect : frame.template.name? instruction.byte = some handler.effect
  stack : ∃ rest, frame.stack = .closure handler.closure :: rest ∧
    handler.depth = rest.length
  frame : handler.frame = below.length
  target : handler.target = instruction.next + instruction.trailingShort

/-- An instruction registers one handler. -/
theorem Registers.unique {instruction : Instruction}
    {frame : Frame} {below : List Frame} {handler other : Handler}
    (registers : Registers instruction frame below handler)
    (again : Registers instruction frame below other) :
    handler = other := by
  obtain ⟨rest, stack, depth⟩ := registers.stack
  obtain ⟨others, otherStack, otherDepth⟩ := again.stack
  obtain ⟨closure, same⟩ := List.cons.inj (stack.symm.trans otherStack)
  have effect := registers.effect.symm.trans again.effect
  have target := registers.target.trans again.target.symm
  have index := registers.frame.trans again.frame.symm
  cases handler
  cases other
  subst same
  simp_all

/-! ## Fetching -/

namespace Machine

variable {machine after : Machine} {frame : Frame} {below : List Frame}
    {instruction : Instruction}

theorem fetch_eq
    (frames : machine.frames = frame :: below)
    (decodes : Instruction.decode frame.template.code frame.ip =
      .ok instruction) :
    machine.fetch = .ok (instruction,
      { machine with frames :=
        { frame with ip := instruction.next } :: below }) := by
  unfold fetch
  rw [top_eq frames, Outcome.ok_bind]
  simp only [decodes, setTop_eq frames]
  rfl

theorem instruction?_eq_some (frames : machine.frames = frame :: below) :
    machine.instruction? = some instruction ↔
      Instruction.decode frame.template.code frame.ip = .ok instruction := by
  unfold instruction? fetch
  rw [top_eq frames, Outcome.ok_bind]
  cases decodes : Instruction.decode frame.template.code frame.ip with
  | ok decoded => simp [pure, Except.pure]
  | error fault => simp

/-- A step executes the instruction that it fetches. -/
theorem step_eq
    (frames : machine.frames = frame :: below)
    (decodes : Instruction.decode frame.template.code frame.ip =
      .ok instruction) :
    machine.step =
      match
        ({ machine with frames :=
          { frame with ip := instruction.next } :: below } :
        Machine).execute instruction with
      | .ok (.onward next) => .running next
      | .ok (.finished value final) => .finished value final
      | .error failure =>
          ({ machine with frames :=
            { frame with ip := instruction.next } :: below } :
          Machine).fail failure := by
  have fetches := fetch_eq frames decodes
  unfold step
  split
  next failure fails => cases fetches.symm.trans fails
  next decoded fetched same =>
    cases fetches.symm.trans same
    rfl

theorem step_of_execute
    (frames : machine.frames = frame :: below)
    (decodes : Instruction.decode frame.template.code frame.ip =
      .ok instruction)
    (executed :
      ({ machine with frames := { frame with ip := instruction.next } ::
        below } : Machine).execute instruction = .ok (.onward after)) :
    machine.step = .running after := by
  rw [step_eq frames decodes, executed]

/-- What a step that goes on executes. -/
theorem execute_eq
    (frames : machine.frames = frame :: below)
    (decodes : Instruction.decode frame.template.code frame.ip =
      .ok instruction)
    (steps : machine.step = .running after) :
    ({ machine with frames := { frame with ip := instruction.next } :: below } :
      Machine).execute instruction = .ok (.onward after) := by
  unfold step at steps
  rw [fetch_eq frames decodes] at steps
  simp only at steps
  split at steps
  next next executed =>
    cases steps
    exact executed
  next => cases steps
  next => cases steps

/-! ## Making and registering handlers -/

/-- Making a closure pushes it. -/
theorem step_makeClosure
    (frames : machine.frames = frame :: below)
    (decodes : Instruction.decode frame.template.code frame.ip =
      .ok instruction)
    (operation : instruction.opcode = .makeClosure)
    (steps : machine.step = .running after) :
    after.handlers = machine.handlers ∧ ∃ value, after.frames =
      { frame with ip := instruction.next, stack := value :: frame.stack } ::
        below := by
  have executed := execute_eq frames decodes steps
  unfold execute at executed
  rw [top_eq rfl, Outcome.ok_bind] at executed
  simp only [operation] at executed
  obtain ⟨made, makes, onward⟩ := Outcome.bind_eq_ok.1 executed
  cases onward
  obtain ⟨_, _, _, _, _, same, _, _, pushes⟩ := makeClosure_inversion makes
  cases same
  obtain ⟨_, rfl⟩ := push_eq_ok rfl pushes
  exact ⟨rfl, _, rfl⟩

/-- Registering a handler takes its closure and puts the handler in force. -/
theorem step_setHandler
    (frames : machine.frames = frame :: below)
    (decodes : Instruction.decode frame.template.code frame.ip =
      .ok instruction)
    (operation : instruction.opcode = .setHandler)
    (steps : machine.step = .running after) :
    ∃ handler, Registers instruction frame below handler ∧
      after.handlers = handler :: machine.handlers ∧
      after.frames = { frame with ip := instruction.next, stack :=
        frame.stack.tail } :: below := by
  have executed := execute_eq frames decodes steps
  unfold execute at executed
  rw [top_eq rfl, Outcome.ok_bind] at executed
  simp only [operation] at executed
  obtain ⟨effect, named, rest⟩ := Outcome.bind_eq_ok.1 executed
  obtain ⟨made, registers, onward⟩ := Outcome.bind_eq_ok.1 rest
  cases onward
  have name : frame.template.name? instruction.byte = some effect := by
    unfold operandName at named
    split at named
    next found =>
      cases named
      exact found
    next => cases named
  obtain ⟨closure, _, _, _, pops, poppedFrames, rfl⟩ :=
    setHandler_inversion registers
  obtain ⟨_, _, stack, same, stackEq, rfl⟩ := pop_inversion pops
  cases same
  cases poppedFrames
  refine ⟨_, ⟨operation, name, ⟨stack, stackEq, rfl⟩, rfl, rfl⟩, rfl, ?_⟩
  simp [show frame.stack = _ from stackEq]

/-- The end of a body leaves the frames as they are. -/
theorem step_popHandlers
    (frames : machine.frames = frame :: below)
    (decodes : Instruction.decode frame.template.code frame.ip =
      .ok instruction)
    (operation : instruction.opcode = .popHandlers)
    (steps : machine.step = .running after) :
    after.frames = { frame with ip := instruction.next } :: below := by
  have executed := execute_eq frames decodes steps
  unfold execute at executed
  rw [top_eq rfl, Outcome.ok_bind] at executed
  simp only [operation] at executed
  cases executed
  rfl

variable {activation : Activation Handler} {older : List (Activation Handler)}

/-- A step that leaves the older frames and handlers as they are is one of the
newest activation. -/
theorem Sound.stays {front : List Handler}
    (sound : machine.Sound (activation :: older))
    (executes : machine.instruction? = some instruction)
    (steps : machine.step = .running after)
    (frames : after.frames = frame :: older.map (·.frame))
    (handlers : after.handlers = front ++ machine.handlers) :
    ∃ kept, after.Sound (kept :: older) ∧ kept.frame = frame ∧
      kept.own = front ++ activation.own ∧
      activation.Moves instruction [] kept := by
  obtain ⟨executed, later, executesSame, laterSound, change⟩ :=
    sound.running steps
  cases executesSame.1.symm.trans executes
  have count : later.length = older.length + 1 := by
    rw [← laterSound.length_frames, frames]
    simp
  obtain ⟨newer, kept, rfl, moves⟩ :=
    @Change.persists _ _ [] older activation change sound.stacked
    (by omega)
  have none : newer = [] := by
    apply List.eq_nil_of_length_eq_zero
    simp only [List.length_append, List.length_cons] at count
    omega
  subst none
  refine ⟨kept, laterSound, ?_, ?_, moves⟩
  · exact (List.cons.inj (laterSound.frames.symm.trans frames)).1
  · have hiddenEq : kept.hidden = activation.hidden := by
      simp only [Activation.hidden, moves.continues.link]
    have force := laterSound.handlers.symm.trans handlers
    rw [sound.handlers, List.nil_append, inForce_cons, inForce_cons, hiddenEq,
      ← List.append_assoc]
      at force
    exact List.append_cancel_right force

theorem Sound.makes_closure
    (sound : machine.Sound (activation :: older))
    (executes : machine.instruction? = some instruction)
    (operation : instruction.opcode = .makeClosure)
    (steps : machine.step = .running after) :
    ∃ kept value, after.Sound (kept :: older) ∧ kept.own = activation.own ∧
      kept.frame = { activation.frame with
        ip := instruction.next
        stack := value :: activation.frame.stack } ∧
      activation.Moves instruction [] kept := by
  have decodes := (instruction?_eq_some sound.frames).1 executes
  obtain ⟨handlers, value, frames⟩ :=
    step_makeClosure sound.frames decodes operation steps
  obtain ⟨kept, keptSound, frameEq, own, moves⟩ :=
    @Sound.stays _ _ _ _ _ _ [] sound executes steps
    frames handlers
  exact ⟨kept, value, keptSound, own, frameEq, moves⟩

theorem Sound.registers_handler
    (sound : machine.Sound (activation :: older))
    (executes : machine.instruction? = some instruction)
    (operation : instruction.opcode = .setHandler)
    (steps : machine.step = .running after) :
    ∃ kept handler, after.Sound (kept :: older) ∧
      kept.own = handler :: activation.own ∧
      Registers instruction activation.frame (older.map (·.frame)) handler ∧
      kept.frame = { activation.frame with
        ip := instruction.next
        stack := activation.frame.stack.tail } ∧
      activation.Moves instruction [] kept := by
  have decodes := (instruction?_eq_some sound.frames).1 executes
  obtain ⟨handler, registers, handlers, frames⟩ :=
    step_setHandler sound.frames decodes operation steps
  obtain ⟨kept, keptSound, frameEq, own, moves⟩ :=
    @Sound.stays _ _ _ _ _ _ [handler] sound executes
    steps frames handlers
  exact ⟨kept, handler, keptSound, own, registers, frameEq, moves⟩

end Machine

/-! ## Performing effects -/

theorem placeCaptures_cases
    (owner : String)
    (captures : List (UInt8 × Nat))
    (slots : List Value) :
    (∃ placed, placeCaptures owner captures slots = .ok placed) ∨
      ∃ fault, placeCaptures owner captures slots = .error (.fault fault) := by
  induction captures generalizing slots with
  | nil => exact .inl ⟨slots, rfl⟩
  | cons capture others inner =>
      simp only [placeCaptures]
      split
      · exact inner _
      · exact .inr ⟨_, rfl⟩

theorem boxSlots_cases
    (owner : String) (chosen : List UInt8) (slots : List Value)
      (store : Store) :
    (∃ boxed, boxSlots owner chosen slots store = .ok boxed) ∨
      ∃ fault, boxSlots owner chosen slots store = .error (.fault fault) := by
  induction chosen generalizing slots store with
  | nil => exact .inl ⟨_, rfl⟩
  | cons slot others inner =>
      simp only [boxSlots]
      split
      · exact inner _ _
      · exact .inr ⟨_, rfl⟩

namespace Machine

variable {machine : Machine} {frame : Frame} {below : List Frame}
    {instruction : Instruction} {activation : Activation Handler}
    {older : List (Activation Handler)} {effect : String} {dispatch : Dispatch}

/-- A computation that succeeds with a good result or faults. -/
def OrFaults (good : Machine → Prop) (computation : Except Failure Machine) :
    Prop :=
  (∃ result, computation = .ok result ∧ good result) ∨
    ∃ fault, computation = .error (.fault fault)

theorem OrFaults.bind {good better : Machine → Prop}
    {first : Except Failure Machine} {second : Machine → Except Failure Machine}
    (early : OrFaults good first)
    (late : ∀ result, good result → OrFaults better (second result)) :
    OrFaults better (first >>= second) := by
  rcases early with ⟨result, rfl, holds⟩ | ⟨fault, rfl⟩
  · exact late result holds
  · exact .inr ⟨fault, rfl⟩

theorem push_orFaults {value : Value}
    (frames : machine.frames = frame :: below) :
    OrFaults (· = { machine with frames := frame.given value :: below })
      (machine.push value) := by
  unfold Machine.push
  rw [top_eq frames, Outcome.ok_bind]
  by_cases room : frame.stack.length < machine.limits.stackCapacity
  · simp only [Frame.push, room, if_true, Outcome.ok_bind, setTop_eq frames]
    exact .inl ⟨_, rfl, rfl⟩
  · simp only [Frame.push, room, if_false, Outcome.error_bind]
    exact .inr ⟨_, rfl⟩

theorem openFrame_orFaults
    (machine : Machine) (closure : Closure) (arguments : List Value) :
    OrFaults (fun opened => ∃ callee store, callee.closure = closure ∧
        opened = { machine with frames :=
          callee :: machine.frames, store := store })
      (machine.openFrame closure arguments) := by
  unfold openFrame
  split
  · simp only
    rcases placeCaptures_cases closure.template.name
      (closure.template.capturesInner.zip closure.boxes)
        (closure.initialSlots arguments) with
      ⟨placed, placedEq⟩ | ⟨fault, faults⟩
    · rw [placedEq, Outcome.ok_bind]
      rcases boxSlots_cases closure.template.name
          (closure.template.heapSlots.filter fun slot =>
        !closure.template.capturesInner.contains slot) placed machine.store with
        ⟨⟨slots, store⟩, boxedEq⟩ | ⟨fault, faults⟩
      · rw [boxedEq]
        exact .inl ⟨_, rfl, _, store, rfl, rfl⟩
      · rw [faults]
        exact .inr ⟨fault, rfl⟩
    · rw [faults]
      exact .inr ⟨fault, rfl⟩
  · exact .inr ⟨_, rfl⟩

/-- Performing an effect that is handled opens a frame for the newest
handler. -/
theorem perform_orFaults {payload : Value}
    {rest : List Value}
    (frames : machine.frames = frame :: below)
    (stack : frame.stack = payload :: rest)
    (found : Dispatch.find? effect machine.handlers = some dispatch)
    (arity : dispatch.handler.closure.template.arity = 1) :
    OrFaults
      (fun after => ∃ callee,
        after.frames = callee :: { frame with stack := rest } :: below ∧
        callee.closure = dispatch.handler.closure ∧
        callee.link = some
          { resumeInto := below.length
            handlerFrame := dispatch.handler.frame
            depth := dispatch.handler.depth
            target := dispatch.handler.target
            groupStart := dispatch.staying.length
            stash := dispatch.stash })
      (machine.perform effect) := by
  unfold perform
  rw [pop_eq frames stack, Outcome.ok_bind]
  simp only [found]
  refine (push_orFaults rfl).bind ?_
  rintro _ rfl
  refine (push_orFaults rfl).bind ?_
  rintro _ rfl
  unfold call
  rw [top_eq rfl, Outcome.ok_bind]
  simp only [Frame.given, List.drop_succ_cons, List.drop_zero,
    List.take_succ_cons, List.take_zero, List.reverse_singleton, callValue,
    List.length_singleton, arity, if_true]
  refine (openFrame_orFaults _ _ _).bind ?_
  rintro _ ⟨callee, store, closureEq, rfl⟩
  refine .inl ⟨_, rfl, _, rfl, closureEq, ?_⟩
  simp [topIndex]

/-- A step that performs an effect goes on or fails as performing the effect
does. -/
theorem step_perform {outcome : Except Failure Machine}
    (frames : machine.frames = frame :: below)
    (decodes : Instruction.decode frame.template.code frame.ip =
      .ok instruction)
    (operation : instruction.opcode = .perform)
    (named : frame.template.name? instruction.byte = some effect)
    (performs :
      ({ machine with frames := { frame with ip := instruction.next } ::
        below } : Machine).perform effect = outcome) :
    match outcome with
    | .ok after => machine.step = .running after
    | .error failure => ∃ calls final, machine.step = .failed
        (failure.withCalls calls) final := by
  have name : ({ frame with ip := instruction.next } : Frame).template.name?
    instruction.byte =
      some effect := named
  unfold step
  rw [fetch_eq frames decodes]
  simp only
  unfold execute
  rw [top_eq rfl, Outcome.ok_bind]
  simp only [operation, operandName, name, Outcome.ok_bind, performs]
  cases outcome with
  | ok after => rfl
  | error failure => exact ⟨_, _, rfl⟩

/-- The newest activation has a payload for the effect that it performs. -/
theorem Sound.has_payload
    (sound : machine.Sound (activation :: older))
    (decodes : Instruction.decode activation.frame.template.code
      activation.frame.ip = .ok instruction)
    (operation : instruction.opcode = .perform)
    (named : activation.frame.template.name? instruction.byte = some effect) :
    ∃ payload rest, activation.frame.stack = payload :: rest := by
  cases stack : activation.frame.stack with
  | cons payload rest => exact ⟨payload, rest, rfl⟩
  | nil =>
      -- Otherwise the step would fail in a way that compiled code cannot.
      have fails : ({ machine with
            frames := { activation.frame with ip := instruction.next } ::
              older.map (·.frame) } :
          Machine).perform effect = .error (.fault .stackUnderflow) := by
        unfold perform Machine.pop
        rw [top_eq rfl, Outcome.ok_bind]
        simp only [Frame.pop, stack, Outcome.error_bind]
      obtain ⟨calls, final, failed⟩ :=
        step_perform sound.frames decodes operation named fails
      obtain ⟨_, _, outcome⟩ := sound.step
      rw [failed] at outcome
      exact outcome.1.elim

/-- An effect without a handler in force is unhandled. -/
theorem Sound.unhandled
    (sound : machine.Sound (activation :: older))
    (executes : machine.instruction? = some instruction)
    (operation : instruction.opcode = .perform)
    (named : activation.frame.template.name? instruction.byte = some effect)
    (missing : Dispatch.find? effect machine.handlers = none) :
    ∃ trace final, machine.step = .failed (.unhandled effect trace) final := by
  have decodes := (instruction?_eq_some sound.frames).1 executes
  obtain ⟨payload, rest, stack⟩ := sound.has_payload decodes operation named
  have fails : ({ machine with
        frames := { activation.frame with ip := instruction.next } :: older.map
          (·.frame) } :
      Machine).perform effect = .error (.unhandled effect []) := by
    unfold perform
    rw [@pop_eq _ { activation.frame with ip := instruction.next } _ payload
      rest rfl stack,
      Outcome.ok_bind]
    simp only [missing]
  obtain ⟨calls, final, failed⟩ :=
    step_perform sound.frames decodes operation named fails
  exact ⟨_, final, failed⟩

/-- An effect with a handler in force runs the newest one, unless a limit of the
machine is reached. -/
theorem Sound.handled
    (sound : machine.Sound (activation :: older))
    (executes : machine.instruction? = some instruction)
    (operation : instruction.opcode = .perform)
    (named : activation.frame.template.name? instruction.byte = some effect)
    (found : Dispatch.find? effect machine.handlers = some dispatch) :
    (∃ after callee, machine.step = .running after ∧
        after.frames = callee :: activation.frame.suspended instruction ::
          older.map (·.frame) ∧
        callee.closure = dispatch.handler.closure ∧
        callee.link = some
          { resumeInto := older.length
            handlerFrame := dispatch.handler.frame
            depth := dispatch.handler.depth
            target := dispatch.handler.target
            groupStart := dispatch.staying.length
            stash := dispatch.stash }) ∨
      ∃ fault final, machine.step = .failed (.fault fault) final ∧
        (Failure.fault fault).Expected := by
  have decodes := (instruction?_eq_some sound.frames).1 executes
  obtain ⟨payload, rest, stack⟩ := sound.has_payload decodes operation named
  obtain ⟨newer, group, divided, _, _, _⟩ := Divided.of_find? found
  have member : dispatch.handler ∈ inForce (activation :: older) := by
    rw [← sound.handlers, divided.split]
    simp
  have performs := @perform_orFaults
    { machine with frames :=
      { activation.frame with ip := instruction.next } :: older.map (·.frame) }
    { activation.frame with ip := instruction.next } _ effect dispatch payload
    rest rfl stack found (sound.stacked.closure member).2
  rcases performs with ⟨after, performed, callee, frames, closureEq,
    linked⟩ | ⟨fault, faults⟩
  · refine .inl ⟨after, callee, step_perform sound.frames decodes operation
      named performed, ?_,
      closureEq, ?_⟩
    · rw [frames]
      simp [Frame.suspended, Instruction.taken, operation, stack]
    · rw [linked, List.length_map]
  · obtain ⟨calls, final, failed⟩ :=
      step_perform sound.frames decodes operation named faults
    obtain ⟨_, _, outcome⟩ := sound.step
    rw [failed] at outcome
    exact .inr ⟨fault, final, failed, outcome.1⟩

end Machine

end EffectScript
