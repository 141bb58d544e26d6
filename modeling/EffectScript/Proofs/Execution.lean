import EffectScript.Proofs.Change

/-!
# Executing one instruction

Every instruction of a sound machine runs safely, and what it changes is a
`Change`. There is one lemma for each way of executing, and they are put
together at the end.
-/

namespace EffectScript

open Activation

/-- The machine after an instruction is sound for activations that the
instruction can lead to. -/
def Goes
    (instruction : Instruction)
    (activations : List (Activation Handler))
    (after : Machine) : Prop :=
  ∃ later, after.Sound later ∧ Change instruction activations later

/-- What an instruction may lead to: another sound machine, or the end of the
run. -/
def Flows
    (instruction : Instruction)
    (activations : List (Activation Handler)) : Flow → Prop
  | .onward after => Goes instruction activations after
  | .finished _ after => after.Surrounded

theorem Safely.onward {instruction : Instruction}
    {activations : List (Activation Handler)}
    {computation : Except Failure Machine}
    (safely : Safely (Goes instruction activations) computation) :
    Safely (Flows instruction activations)
      (computation >>= fun after => pure (.onward after)) :=
  safely.bind fun _ goes => goes

namespace Activation

variable {activation : Activation Handler}
    {older above rest : List (Activation Handler)}

theorem Stacked.tied {awaiting : Nat}
    {callee : Activation Handler} {link : EffectLink}
    (stacked : Stacked awaiting (above ++ callee :: rest))
    (linked : callee.frame.link = some link) :
    Tied link rest ∧ Stacked 1 rest := by
  induction above generalizing awaiting with
  | nil => exact ⟨stacked.2.1 link linked, stacked.2.2⟩
  | cons other above inner => exact inner stacked.2.2

/-- A handler in force is a sound function of one argument. -/
theorem Stacked.closure {awaiting : Nat}
    {activations : List (Activation Handler)}
    (stacked : Stacked awaiting activations)
    {handler : Handler}
    (member : handler ∈ inForce activations) :
    handler.closure.Sound ∧ handler.closure.template.arity = 1 := by
  induction activations generalizing awaiting with
  | nil => cases member
  | cons activation older inner =>
      rcases List.mem_append.1 member with mine | below
      · obtain ⟨registration, _, answers⟩ :=
          forall₂_mem_right stacked.1.own mine
        exact ⟨answers.closure, answers.arity⟩
      · exact inner stacked.2.2 (List.mem_of_mem_drop below)

/-- A waiting activation may be given the value that it awaits. -/
theorem Fits.given {index : Nat} {value : Value}
    (fits : activation.Fits index 1)
    (sound : value.Sound) :
    ({ activation with frame := activation.frame.given value } :
      Activation Handler).Fits index 0 where
  closure := fits.closure
  laidOut := fits.laidOut
  known := fits.known
  height := fits.height
  room := Nat.zero_le _
  made := by
    intro function made
    obtain ⟨impossible, _⟩ := fits.made function made
    cases impossible
  own := fits.own
  slots := fits.slots
  boxes := fits.boxes
  stackSound := by
    intro held member
    rcases List.mem_cons.1 member with rfl | old
    · exact sound
    · exact fits.stackSound held old
  slotsSound := fits.slotsSound

/-- Tying an activation to an effect does not change how it fits. -/
theorem Fits.tie {index awaiting : Nat}
    (fits : activation.Fits index awaiting)
    (link : Option EffectLink) :
    ({ activation with frame := { activation.frame with link := link } } :
      Activation Handler).Fits index awaiting :=
  ⟨fits.closure, fits.laidOut, fits.known, fits.height, fits.room, fits.made,
    fits.own, fits.slots, fits.boxes, fits.stackSound, fits.slotsSound⟩

end Activation

namespace Machine

/-- The machine is about to execute the emission at the point where the newest
activation is; the offset of its frame is already behind it. -/
structure Poised
    (machine : Machine)
    (activation : Activation Handler)
    (older : List (Activation Handler))
    (emission : Emission) : Prop where
  surrounded : machine.Surrounded
  frames : machine.frames =
    { activation.frame with ip := activation.frame.ip + emission.size } ::
      older.map (·.frame)
  handlers : machine.handlers = inForce (activation :: older)
  stacked : Stacked 0 (activation :: older)
  here : activation.code.At activation.frame.ip activation.shape emission

/-- The instruction that the emission at the point of an activation became. -/
def instructionAt (activation : Activation Handler) (emission : Emission) :
    Instruction :=
  emission.placedAt activation.frame.template.heapSlots activation.frame.ip

namespace Poised

variable {machine after : Machine} {activation : Activation Handler}
    {older : List (Activation Handler)} {emission : Emission} {frame : Frame}
    {shape : Shape}

theorem fits (poised : machine.Poised activation older emission) :
    activation.Fits older.length 0 :=
  poised.stacked.1

theorem complete (poised : machine.Poised activation older emission) :
    emission.Complete :=
  (poised.fits.laidOut.follow poised.here).2.2.1

theorem valid (poised : machine.Poised activation older emission) :
    emission.Valid activation.frame.template.pools :=
  (poised.fits.laidOut.follow poised.here).2.2.2

theorem next_eq (poised : machine.Poised activation older emission) :
    (instructionAt activation emission).next = activation.frame.ip +
      emission.size :=
  congrArg (activation.frame.ip + ·) (poised.complete.size_written _)

/-- The newest activation goes on in another state. -/
theorem settle {own : List Handler}
    (poised : machine.Poised activation older emission)
    (surrounded : after.Surrounded)
    (frames : after.frames = frame :: older.map (·.frame))
    (handlers : after.handlers = own ++ (inForce older).drop activation.hidden)
    (link : frame.link = activation.frame.link)
    (fits : (⟨frame, activation.code, shape, own⟩ : Activation Handler).Fits
      older.length 0) :
    after.Sound (⟨frame, activation.code, shape, own⟩ :: older) where
  surrounded := surrounded
  frames := frames
  handlers := by
    rw [handlers, inForce_cons]
    simp [Activation.hidden, link]
  stacked := ⟨fits, fun tie linked => poised.stacked.2.1 tie (link ▸ linked),
    poised.stacked.2.2⟩

/-! ## Instructions that go on behind themselves -/

/-- What the newest activation is like after its values are taken and others are
left. -/
theorem fits_advanced
    (poised : machine.Poised activation older emission)
    {place awaiting : Nat} {values : List Value} {slots : List Value}
    {count : Nat}
    (onward : activation.code.Known place
      (activation.shape.raised
        (activation.shape.height - count + (values.length + awaiting))))
    (enough : count ≤ activation.shape.height)
    (valuesSound : ∀ value ∈ values, value.Sound)
    (slotCount : slots.length = activation.frame.slots.length)
    (boxes : ∀ slot ∈ activation.frame.template.heapSlots,
      slots[slot.toNat]? = activation.frame.slots[slot.toNat]?)
    (slotsSound : ∀ value ∈ slots, value.Sound) :
    ({ activation with
        frame := { activation.frame with
          ip := place
          stack := values ++ activation.frame.stack.drop count
          slots := slots }
        shape := activation.shape.raised
          (activation.shape.height - count + (values.length + awaiting)) } :
      Activation Handler).Fits older.length awaiting := by
  have fits := poised.fits
  refine ⟨fits.closure, fits.laidOut, onward, ?_, ?_, by rintro _ ⟨⟩, fits.own,
    slotCount.trans fits.slots, ?_, ?_, slotsSound⟩
  · have height := fits.height
    simp only [Shape.depth, List.length_append, List.length_drop,
      Shape.raised_floor, Shape.raised_height] at height ⊢
    omega
  · simp only [Shape.raised_height]
    omega
  · intro slot heap
    obtain ⟨cell, present⟩ := fits.boxes slot heap
    exact ⟨cell, (boxes slot heap).trans present⟩
  · intro value member
    rcases List.mem_append.1 member with new | old
    · exact valuesSound value new
    · exact fits.stackSound value (List.mem_of_mem_drop old)

/-- The instruction takes its values and leaves others, and control goes on at
another point. -/
theorem advance
    (poised : machine.Poised activation older emission)
    (values : List Value)
    {place : Nat} {slots : List Value} {count : Nat}
    (onward : activation.code.Known place
      (activation.shape.raised
        (activation.shape.height - count + values.length)))
    (enough : count ≤ activation.shape.height)
    (valuesSound : ∀ value ∈ values, value.Sound)
    (slotCount : slots.length = activation.frame.slots.length)
    (boxes : ∀ slot ∈ activation.frame.template.heapSlots,
      slots[slot.toNat]? = activation.frame.slots[slot.toNat]?)
    (slotsSound : ∀ value ∈ slots, value.Sound)
    (surrounded : after.Surrounded)
    (handlers : after.handlers = machine.handlers)
    (frames : after.frames = { activation.frame with
        ip := place
        stack := values ++ activation.frame.stack.drop count
        slots := slots } :: older.map (·.frame)) :
    Goes (instructionAt activation emission) (activation :: older) after := by
  have fits := @fits_advanced _ _ _ _ poised place 0 values slots count onward
    enough valuesSound slotCount boxes slotsSound
  refine ⟨_, poised.settle surrounded frames (handlers.trans poised.handlers)
    rfl fits, ?_⟩
  exact .works ⟨rfl, rfl, boxes⟩ rfl ⟨count, values, enough, rfl⟩

/-- The instruction takes its values and leaves one. -/
theorem leave
    (poised : machine.Poised activation older emission)
    {count : Nat} {value : Value}
    (onward : activation.code.Known (activation.frame.ip + emission.size)
      (activation.shape.raised (activation.shape.height - count + 1)))
    (enough : count ≤ activation.shape.height)
    (sound : value.Sound)
    (surrounded : after.Surrounded)
    (handlers : after.handlers = machine.handlers)
    (frames : after.frames = { activation.frame with
        ip := activation.frame.ip + emission.size
        stack := activation.frame.stack.drop count } :: older.map (·.frame)) :
    Safely (Goes (instructionAt activation emission) (activation :: older))
      (after.push value) := by
  refine push_safely frames (poised.advance [value] onward enough ?_ rfl
    (fun _ _ => rfl) poised.fits.slotsSound
      ⟨surrounded.globals, surrounded.methods,
      surrounded.cells⟩ handlers rfl)
  simpa using sound

/-! ## Calls -/

/-- Resuming goes back into the frame that performed the effect, with the
handlers that were in force there. -/
theorem resume_safely
    (poised : machine.Poised activation older emission)
    {before : Machine} {value : Value}
    (operation : (instructionAt activation emission).opcode ≠ .return)
    (surrounded : before.Surrounded)
    (handlers : before.handlers = machine.handlers)
    (frames : before.frames = frame :: older.map (·.frame))
    (link : frame.link = activation.frame.link)
    (resumes : before.resume = .ok after)
    (sound : value.Sound) :
    Safely (Goes (instructionAt activation emission) (activation :: older))
      (after.push value) := by
  have found : before.frames.findSome? (·.link) =
      (activation :: older).findSome? (·.frame.link) := by
    rw [frames]
    simp [List.findSome?_map, link, Function.comp_def, List.findSome?_cons]
  unfold Machine.resume at resumes
  rw [found] at resumes
  split at resumes
  next tie newest =>
    cases resumes
    obtain ⟨above, callee, rest, parts, linked, unlinked⟩ :=
      List.findSome?_eq_some_iff.1 newest
    have stacked := poised.stacked
    have inForceEq := poised.handlers
    rw [parts] at stacked inForceEq
    obtain ⟨⟨newer, handler, group, staying, divided, into, _, _, _,
      groupStart, stash⟩, restStacked⟩ := stacked.tied linked
    have hiddenEq : callee.hidden = tie.stash.length := hidden_of_link linked
    have stayingEq : (inForce rest).drop tie.stash.length = staying := by
      rw [divided.split, stash]
      simp
    have inForceAbove :
        before.handlers = (above.flatMap (·.own) ++ callee.own) ++ staying := by
      rw [handlers, inForceEq, inForce_append unlinked, inForce_cons,
        hiddenEq, stayingEq, List.append_assoc]
    have restHandlers : tie.stash ++ oldest tie.groupStart before.handlers =
        inForce rest := by
      rw [inForceAbove, groupStart, oldest_append, divided.split, stash]
      simp
    have restFrames : oldest (tie.resumeInto + 1) before.frames = rest.map
        (·.frame) := by
      have tailEq : older = (above ++ [callee]).tail ++ rest := by
        have tails := congrArg List.tail parts
        cases above with
        | nil => exact tails
        | cons other above => simpa using tails
      rw [frames, tailEq, into, List.map_append, ← List.cons_append]
      have count : rest.length = (rest.map (·.frame)).length := by simp
      rw [count]
      exact oldest_append
    cases rest with
    | nil => simp at into
    | cons performer others =>
        refine push_safely restFrames
          ⟨{ performer with frame := performer.frame.given value } :: others,
          ⟨⟨surrounded.globals, surrounded.methods, surrounded.cells⟩, rfl,
            restHandlers, restStacked.1.given sound, restStacked.2.1,
            restStacked.2.2⟩, ?_⟩
        rw [parts]
        exact .resumes operation unlinked linked
  next => cases resumes

/-- The newest activation while it waits for the result of its instruction. -/
theorem fits_suspended
    (poised : machine.Poised activation older emission)
    (taken : (instructionAt activation emission).taken = emission.pops)
    (onward : activation.code.Known (activation.frame.ip + emission.size)
      (activation.shape.raised (activation.shape.height - emission.pops + 1)))
    (enough : emission.pops ≤ activation.shape.height) :
    ({ activation with
        frame := activation.frame.suspended (instructionAt activation emission)
        shape := activation.shape.raised
          (activation.shape.height - emission.pops + 1) } :
      Activation Handler).Fits older.length 1 := by
  have fits := @fits_advanced _ _ _ _ poised _ 1 [] activation.frame.slots
    emission.pops onward enough
    (by simp) rfl (fun _ _ => rfl) poised.fits.slotsSound
  unfold Frame.suspended
  rw [taken, poised.next_eq]
  exact fits

/-- Calling a value either leaves a result at once, or opens a frame, or
resumes. -/
theorem callValue_safely
    (poised : machine.Poised activation older emission)
    {before : Machine} {callee : Value} {arguments : List Value}
    (taken : (instructionAt activation emission).taken = emission.pops)
    (operation : (instructionAt activation emission).opcode ≠ .return ∧
      (instructionAt activation emission).opcode ≠ .perform)
    (onward : activation.code.Known (activation.frame.ip + emission.size)
      (activation.shape.raised (activation.shape.height - emission.pops + 1)))
    (enough : emission.pops ≤ activation.shape.height)
    (surrounded : before.Surrounded)
    (handlers : before.handlers = machine.handlers)
    (frames : before.frames = { activation.frame with
        ip := activation.frame.ip + emission.size
        stack := activation.frame.stack.drop emission.pops } ::
          older.map (·.frame))
    (calleeSound : callee.Sound)
      (argumentsSound : ∀ value ∈ arguments, value.Sound) :
    Safely (Goes (instructionAt activation emission) (activation :: older))
      (before.callValue callee arguments) := by
  unfold Machine.callValue
  split
  next closure =>
    simp only
    split
    next arity =>
      refine openFrame_safely surrounded calleeSound.closed
        argumentsSound arity ?_
      intro opened store isOpened openedSurrounded
      refine ⟨opened :: { activation with
          frame := activation.frame.suspended
            (instructionAt activation emission)
          shape := activation.shape.raised
            (activation.shape.height - emission.pops + 1) } :: older,
        ⟨⟨openedSurrounded.globals, openedSurrounded.methods,
          openedSurrounded.cells⟩, ?_, ?_, isOpened.fits _, ?_,
          poised.fits_suspended taken onward enough, poised.stacked.2.1,
          poised.stacked.2.2⟩,
        .opens rfl (taken ▸ enough) isOpened.own ?_⟩
      · simp only [frames, List.map_cons, Frame.suspended, taken,
          poised.next_eq]
      · simp only [handlers, poised.handlers, inForce_cons, isOpened.own,
          hidden_of_unlinked isOpened.link, List.nil_append, List.drop_zero]
        rfl
      · intro link linked
        rw [isOpened.link] at linked
        cases linked
      · simp [isOpened.link, operation.2]
    next => trivial
  next builtin =>
    cases called : builtin.call before arguments with
    | error exception => trivial
    | ok outcome =>
        obtain ⟨result, after⟩ := outcome
        obtain ⟨resultSound, beside | ⟨_, resumes⟩⟩ :=
          Builtin.call_sound surrounded argumentsSound called
        · exact poised.leave onward enough resultSound beside.surrounded
            (beside.handlers.trans handlers) (beside.frames.trans frames)
        · exact poised.resume_safely operation.1 surrounded handlers frames rfl
            resumes resultSound
  next => trivial

end Poised

theorem push_bind {machine : Machine} {frame : Frame}
    {frames : List Frame} {value : Value} {good : Machine → Prop}
    {rest : Machine → Except Failure Machine}
    (framesEq : machine.frames = frame :: frames)
    (safely : Safely good
      (rest { machine with frames := frame.given value :: frames })) :
    Safely good (machine.push value >>= rest) :=
  (push_safely framesEq rfl : Safely (fun pushed => pushed = _)
    (machine.push value)).bind
    fun _ same => same ▸ safely

/-- Calling what lies beneath its arguments on the operand stack. -/
theorem call_eq {machine : Machine} {frame : Frame}
    {frames : List Frame} {callee : Value} {arguments stack : List Value}
    (framesEq : machine.frames = frame :: frames)
    (stackEq : frame.stack = arguments.reverse ++ callee :: stack) :
    machine.call arguments.length = ({ machine with
      frames := { frame with stack := stack } :: frames } : Machine).callValue
        callee arguments := by
  unfold Machine.call
  have count : arguments.length = arguments.reverse.length :=
    List.length_reverse.symm
  rw [top_eq framesEq, Outcome.ok_bind, stackEq, count, List.drop_left,
    List.take_left]
  simp only [setTop_eq framesEq, List.reverse_reverse]

namespace Poised

variable {machine : Machine} {activation : Activation Handler}
    {older : List (Activation Handler)} {emission : Emission}

/-- Enough values are on the operand stack. -/
theorem stack_length
    (poised : machine.Poised activation older emission)
    {count : Nat}
    (enough : count ≤ activation.shape.height) :
    count ≤ activation.frame.stack.length := by
  have height := poised.fits.height
  unfold Shape.depth at height
  omega

theorem stack_one
    (poised : machine.Poised activation older emission)
    (enough : 1 ≤ activation.shape.height) :
    ∃ value stack, activation.frame.stack = value :: stack ∧ value.Sound := by
  have count := poised.stack_length enough
  cases stackEq : activation.frame.stack with
  | nil =>
      rw [stackEq] at count
      cases count
  | cons value stack =>
      exact ⟨value, stack, rfl, poised.fits.stackSound value
        (by simp [stackEq])⟩

theorem stack_two
    (poised : machine.Poised activation older emission)
    (enough : 2 ≤ activation.shape.height) :
    ∃ right left stack, activation.frame.stack = right :: left :: stack ∧
      right.Sound ∧
      left.Sound := by
  have count := poised.stack_length enough
  match stackEq : activation.frame.stack with
  | [] | [_] => simp [stackEq] at count
  | right :: left :: stack =>
      exact ⟨right, left, stack, rfl,
        poised.fits.stackSound right (by simp [stackEq]),
        poised.fits.stackSound left (by simp [stackEq])⟩

theorem pushResult_safely
    (poised : machine.Poised activation older emission)
    {before : Machine} {count : Nat} {result : Except Exception Value}
    (onward : activation.code.Known (activation.frame.ip + emission.size)
      (activation.shape.raised (activation.shape.height - count + 1)))
    (enough : count ≤ activation.shape.height)
    (sound : ∀ value, result = .ok value → value.Sound)
    (surrounded : before.Surrounded)
    (handlers : before.handlers = machine.handlers)
    (frames : before.frames = { activation.frame with
        ip := activation.frame.ip + emission.size
        stack := activation.frame.stack.drop count } :: older.map (·.frame)) :
    Safely (Goes (instructionAt activation emission) (activation :: older))
      (before.pushResult result) := by
  cases result with
  | ok value =>
      exact poised.leave onward enough (sound value rfl) surrounded
        handlers frames
  | error exception => trivial

/-- An operator on two values follows a rule, calls a method, or is refused. -/
theorem binaryOperator_safely
    (poised : machine.Poised activation older emission)
    {operator : Operator}
    (two : emission.pops = 2)
    (taken : (instructionAt activation emission).taken = emission.pops)
    (operation : (instructionAt activation emission).opcode ≠ .return ∧
      (instructionAt activation emission).opcode ≠ .perform)
    (onward : activation.code.Known (activation.frame.ip + emission.size)
      (activation.shape.raised (activation.shape.height - emission.pops + 1)))
    (enough : emission.pops ≤ activation.shape.height) :
    Safely (Goes (instructionAt activation emission) (activation :: older))
      (machine.binaryOperator operator) := by
  obtain ⟨right, left, stack, stackEq, rightSound, leftSound⟩ :=
    poised.stack_two (two ▸ enough)
  have surrounded := poised.surrounded
  have rest : activation.frame.stack.drop emission.pops = stack := by
    simp [two, stackEq]
  unfold Machine.binaryOperator
  rw [pop_eq poised.frames stackEq, Outcome.ok_bind]
  simp only
  rw [pop_eq rfl rfl, Outcome.ok_bind]
  simp only
  split
  next result applied =>
    refine poised.pushResult_safely onward enough ?_
      ⟨surrounded.globals, surrounded.methods, surrounded.cells⟩ rfl
        (by rw [rest]; rfl)
    rintro value rfl
    exact Operator.binary_kept Value.Sound.stable.kept leftSound
      rightSound applied
  next =>
    split
    next method found =>
      obtain ⟨entry, member, rfl⟩ := MethodTable.mem_of_find? found
      refine push_bind rfl (push_bind rfl (push_bind rfl ?_))
      rw [show 2 = [left, right].length from rfl, call_eq rfl rfl]
      refine poised.callValue_safely taken operation onward enough
        ⟨surrounded.globals, surrounded.methods, surrounded.cells⟩ rfl
        (by rw [rest]; rfl) (surrounded.methods entry member) ?_
      simp [leftSound, rightSound]
    next =>
      refine poised.pushResult_safely onward enough ?_
        ⟨surrounded.globals, surrounded.methods, surrounded.cells⟩ rfl
          (by rw [rest])
      intro value given
      exact Operator.fallback_kept Value.Sound.stable.kept given

/-- Negation follows a rule, calls a method, or is refused. -/
theorem negate_safely
    (poised : machine.Poised activation older emission)
    (one : emission.pops = 1)
    (taken : (instructionAt activation emission).taken = emission.pops)
    (operation : (instructionAt activation emission).opcode ≠ .return ∧
      (instructionAt activation emission).opcode ≠ .perform)
    (onward : activation.code.Known (activation.frame.ip + emission.size)
      (activation.shape.raised (activation.shape.height - emission.pops + 1)))
    (enough : emission.pops ≤ activation.shape.height) :
    Safely (Goes (instructionAt activation emission) (activation :: older))
      machine.negate := by
  obtain ⟨operand, stack, stackEq, operandSound⟩ :=
    poised.stack_one (one ▸ enough)
  have surrounded := poised.surrounded
  have rest : activation.frame.stack.drop emission.pops = stack := by
    simp [one, stackEq]
  unfold Machine.negate
  rw [pop_eq poised.frames stackEq, Outcome.ok_bind]
  simp only
  split
  next result applied =>
    refine poised.pushResult_safely onward enough ?_
      ⟨surrounded.globals, surrounded.methods, surrounded.cells⟩ rfl
        (by rw [rest])
    rintro value rfl
    exact Operator.unary_kept Value.Sound.stable.kept applied
  next =>
    split
    next method found =>
      obtain ⟨entry, member, rfl⟩ := MethodTable.mem_of_find? found
      refine push_bind rfl (push_bind rfl ?_)
      rw [show 1 = [operand].length from rfl, call_eq rfl rfl]
      refine poised.callValue_safely taken operation onward enough
        ⟨surrounded.globals, surrounded.methods, surrounded.cells⟩ rfl
        (by rw [rest]; rfl) (surrounded.methods entry member) ?_
      simp [operandSound]
    next =>
      refine poised.pushResult_safely onward enough ?_
        ⟨surrounded.globals, surrounded.methods, surrounded.cells⟩ rfl
          (by rw [rest])
      intro value given
      exact Operator.fallback_kept Value.Sound.stable.kept given

/-- A call finds its callee beneath its arguments. -/
theorem call_safely
    (poised : machine.Poised activation older emission)
    {count : Nat}
    (countEq : emission.pops = count + 1)
    (taken : (instructionAt activation emission).taken = emission.pops)
    (operation : (instructionAt activation emission).opcode ≠ .return ∧
      (instructionAt activation emission).opcode ≠ .perform)
    (onward : activation.code.Known (activation.frame.ip + emission.size)
      (activation.shape.raised (activation.shape.height - emission.pops + 1)))
    (enough : emission.pops ≤ activation.shape.height) :
    Safely (Goes (instructionAt activation emission) (activation :: older))
      (machine.call count) := by
  have room := poised.stack_length enough
  have surrounded := poised.surrounded
  have values := poised.fits.stackSound
  have split : activation.frame.stack =
      activation.frame.stack.take count ++ activation.frame.stack.drop count :=
    (List.take_append_drop _ _).symm
  cases restEq : activation.frame.stack.drop count with
  | nil =>
      have short := congrArg List.length restEq
      simp only [List.length_drop, List.length_nil] at short
      omega
  | cons callee stack =>
      have taking :
          (activation.frame.stack.take count).reverse.length = count := by
        simp only [List.length_reverse, List.length_take]
        omega
      have rest : activation.frame.stack.drop emission.pops = stack := by
        rw [countEq, ← List.drop_drop, restEq]
        rfl
      rw [← taking, call_eq poised.frames (by
        rw [List.reverse_reverse, ← restEq]
        exact split)]
      refine poised.callValue_safely taken operation onward enough
        ⟨surrounded.globals, surrounded.methods, surrounded.cells⟩ rfl
        (by rw [rest]) (values callee ?_) ?_
      · rw [split, restEq]
        simp
      · intro value member
        exact values value (List.mem_of_mem_take (List.mem_reverse.1 member))

/-! ## Effects -/

/-- Performing an effect opens a frame for its newest handler, or nobody handles
it. -/
theorem perform_safely
    (poised : machine.Poised activation older emission)
    {effect : String}
    (one : emission.pops = 1)
    (taken : (instructionAt activation emission).taken = emission.pops)
    (operation : (instructionAt activation emission).opcode = .perform)
    (onward : activation.code.Known (activation.frame.ip + emission.size)
      (activation.shape.raised (activation.shape.height - emission.pops + 1)))
    (enough : emission.pops ≤ activation.shape.height) :
    Safely (Goes (instructionAt activation emission) (activation :: older))
      (machine.perform effect) := by
  obtain ⟨payload, stack, stackEq, payloadSound⟩ :=
    poised.stack_one (one ▸ enough)
  have surrounded := poised.surrounded
  have rest : activation.frame.stack.drop emission.pops = stack := by
    simp [one, stackEq]
  unfold Machine.perform
  rw [pop_eq poised.frames stackEq, Outcome.ok_bind]
  simp only
  split
  next => trivial
  next dispatch found =>
    rw [poised.handlers] at found
    obtain ⟨newer, group, divided, stashEq, _, _⟩ := Divided.of_find? found
    obtain ⟨closureSound, arity⟩ := poised.stacked.closure
      (show dispatch.handler ∈ inForce (activation :: older) by
        rw [divided.split]; simp)
    have staying : (inForce (activation :: older)).drop dispatch.stash.length =
        dispatch.staying := by
      rw [divided.split, stashEq]
      simp
    refine push_bind rfl (push_bind rfl ?_)
    rw [show 1 = [payload].length from rfl, call_eq rfl rfl]
    simp only [Machine.callValue, arity, List.length_cons,
      List.length_nil, if_true]
    refine openFrame_bind
      ⟨surrounded.globals, surrounded.methods, surrounded.cells⟩ closureSound
      (by simpa using payloadSound) (by simp [arity]) ?_
    intro callee store isOpened openedSurrounded
    unfold Machine.tie
    rw [top_eq rfl, Outcome.ok_bind, setTop_eq rfl]
    let waiting : Activation Handler :=
      { activation with
        frame := activation.frame.suspended (instructionAt activation emission)
        shape := activation.shape.raised
          (activation.shape.height - emission.pops + 1) }
    let link : EffectLink :=
      { resumeInto := older.length
        handlerFrame := dispatch.handler.frame
        depth := dispatch.handler.depth
        target := dispatch.handler.target
        groupStart := dispatch.staying.length
        stash := dispatch.stash }
    let tied : Activation Handler :=
      { callee with frame := { callee.frame with link := some link } }
    have sameForce : inForce (waiting :: older) = inForce
        (activation :: older) := rfl
    refine ⟨tied :: waiting :: older,
      ⟨⟨openedSurrounded.globals, openedSurrounded.methods,
        openedSurrounded.cells⟩, ?_, ?_, (isOpened.fits _).tie _, ?_,
        poised.fits_suspended taken onward enough, poised.stacked.2.1,
        poised.stacked.2.2⟩,
      .opens rfl (taken ▸ enough) isOpened.own ?_⟩
    · simp [tied, waiting, link, Frame.suspended, Frame.given, taken,
        poised.next_eq, rest, Machine.topIndex]
    · rw [inForce_cons,
        hidden_of_link (show tied.frame.link = some link from rfl), sameForce]
      simp only [tied, isOpened.own, List.nil_append]
      exact staying.symm
    · rintro _ ⟨⟩
      exact ⟨newer, dispatch.handler, group, dispatch.staying,
        sameForce ▸ divided, rfl, rfl, rfl, rfl, rfl, stashEq⟩
    · simp [tied, operation]

/-- Registering a handler adds it to those of the newest activation. -/
theorem setHandler_safely {function effectIndex : UInt8}
    {distance : Nat} {before : Shape} {effect : String}
    (poised : machine.Poised activation older
      ⟨.setHandler, effectIndex :: Instruction.shortBytes distance⟩)
    (small : distance ≤ 65535)
    (made : activation.shape = before.making function)
    (onward : activation.code.Known (activation.frame.ip + 4)
      (before.register activation.frame.ip (activation.frame.ip + 4 + distance)
        function effectIndex))
    (named : activation.frame.template.name? effectIndex = some effect) :
    Safely (Goes (instructionAt activation
        ⟨.setHandler, effectIndex :: Instruction.shortBytes distance⟩)
          (activation :: older))
      (machine.setHandler effect distance) := by
  have fits := poised.fits
  have surrounded := poised.surrounded
  have madeHere : activation.shape.made = some function := by rw [made]; rfl
  obtain ⟨_, closure, stack, stackEq, isFunction⟩ := fits.made function madeHere
  obtain ⟨⟨template, isTemplate, arity⟩, _⟩ :=
    fits.laidOut.made poised.here madeHere
  have sameTemplate : closure.template = template :=
    isFunction.unique isTemplate
  have closureSound : closure.Sound :=
    (fits.stackSound (.closure closure) (by simp [stackEq])).closed
  have height : stack.length = before.depth := by
    have := fits.height
    rw [stackEq, made] at this
    simp only [List.length_cons, Shape.making, Shape.depth] at this ⊢
    omega
  unfold Machine.setHandler
  rw [pop_eq poised.frames stackEq, Outcome.ok_bind]
  simp only
  rw [top_eq rfl, Outcome.ok_bind]
  refine ⟨_, @settle _ _ _ _ _ _
    (before.register activation.frame.ip (activation.frame.ip + 4 + distance)
      function effectIndex)
    (_ :: activation.own) poised
    ⟨surrounded.globals, surrounded.methods, surrounded.cells⟩ rfl
    (by simp only [poised.handlers, inForce_cons]; rfl) rfl ?_, ?_⟩
  · refine ⟨fits.closure, fits.laidOut, onward, height, Nat.zero_le _, by
    rintro _ ⟨⟩,
      .cons ⟨?_, height, rfl, named, closureSound, sameTemplate ▸ arity⟩ ?_,
      fits.slots, fits.boxes, ?_, fits.slotsSound⟩
    · simp [Machine.topIndex]
    · have own := fits.own
      rw [made] at own
      exact own
    · intro value member
      exact fits.stackSound value
        (by rw [stackEq]; exact List.mem_cons_of_mem _ member)
  · refine .registers rfl ⟨rfl, rfl, fun _ _ => rfl⟩
      (by rw [made]; rfl) rfl ?_ stackEq height.symm
    exact congrArg (activation.frame.ip + 4 + ·)
      (Instruction.bigEndian_shortBytes small).symm

/-- Completing an attempt takes its handlers out of force. -/
theorem popHandlers_safely {group rest : List Registration}
    {floor height : Nat}
    (poised : machine.Poised activation older
      ⟨.popHandlers, [UInt8.ofNat group.length]⟩)
    (small : group.length ≤ 255)
    (single : activation.shape.height = 1)
    (level : floor + height = activation.shape.floor)
    (split : activation.shape.active = group ++ rest)
    (ends : ∀ registration ∈ group,
      registration.target = activation.frame.ip + 2)
    (onward : activation.code.Known (activation.frame.ip + 2)
      ⟨floor, height + 1, rest, none⟩) :
    Goes (instructionAt activation ⟨.popHandlers, [UInt8.ofNat group.length]⟩)
      (activation :: older)
      { machine with handlers :=
        machine.handlers.drop (UInt8.ofNat group.length).toNat } := by
  have fits := poised.fits
  have surrounded := poised.surrounded
  have countEq : (UInt8.ofNat group.length).toNat = group.length :=
    UInt8.toNat_ofNat_of_lt' (Nat.lt_succ_of_le small)
  obtain ⟨gone, kept, ownEq, goneOwn, keptOwn⟩ :=
    forall₂_append_left (split ▸ fits.own)
  have sameCount : group.length = gone.length := goneOwn.length_eq
  refine ⟨_, @settle _ _ _ _ _ _ ⟨floor, height + 1, rest, none⟩ kept poised
    ⟨surrounded.globals, surrounded.methods, surrounded.cells⟩ poised.frames
      ?_ rfl ?_, ?_⟩
  · simp only [countEq]
    rw [poised.handlers, inForce_cons, ownEq, sameCount, List.append_assoc,
      List.drop_left]
  · refine ⟨fits.closure, fits.laidOut, onward, ?_, Nat.zero_le _, by
    rintro _ ⟨⟩, keptOwn,
      fits.slots, fits.boxes, fits.stackSound, fits.slotsSound⟩
    have depth := fits.height
    simp only [Shape.depth] at depth ⊢
    omega
  · refine .completes rfl ⟨rfl, rfl, fun _ _ => rfl⟩ ownEq ?_ rfl
    intro handler member
    obtain ⟨registration, held, answers⟩ := forall₂_mem_right goneOwn member
    rw [answers.target]
    exact ends registration held

/-! ## Returning -/

/-- The handlers of older activations stay when the newest one returns. -/
theorem dropWhile_handlers
    {older : List (Activation Handler)} {handlers : List Handler}
    (stacked : Stacked 1 older)
    (members : ∀ handler ∈ handlers, handler ∈ inForce older) :
    handlers.dropWhile
      (fun handler => (older.map (·.frame)).length ≤ handler.frame) =
        handlers := by
  cases handlers with
  | nil => rfl
  | cons handler rest =>
      have small := stacked.frame_lt (members handler List.mem_cons_self)
      rw [List.dropWhile_cons_of_neg]
      simpa using small

/-- A frame that returns gives its value to the frame below, or completes the
attempt whose effect it answers. -/
theorem returnValue_safely
    (poised : machine.Poised activation older ⟨.return, []⟩)
    (shapeEq : activation.shape = Shape.initial.raised 1) :
    Safely
      (Flows (instructionAt activation ⟨.return, []⟩) (activation :: older))
      machine.returnValue := by
  have fits := poised.fits
  have surrounded := poised.surrounded
  obtain ⟨_, tie, stacked⟩ := poised.stacked
  have own : activation.own = [] := by
    have own := fits.own
    rw [shapeEq] at own
    exact List.forall₂_nil_left_iff.1 own
  have height : activation.frame.stack.length = 1 := by
    have height := fits.height
    rw [shapeEq] at height
    exact height
  obtain ⟨value, stackEq⟩ := List.length_eq_one_iff.1 height
  have sound : value.Sound := fits.stackSound value (by simp [stackEq])
  have handlersEq : machine.handlers =
      (inForce older).drop activation.hidden := by
    rw [poised.handlers, inForce_cons, own, List.nil_append]
  unfold Machine.returnValue
  rw [top_eq poised.frames, Outcome.ok_bind]
  simp only [stackEq, poised.frames, List.tail_cons, handlersEq]
  rw [dropWhile_handlers stacked fun handler member =>
    List.mem_of_mem_drop member]
  split
  next link linked =>
    refine Safely.onward ?_
    obtain ⟨newer, handler, group, staying, divided, into, frame, depth, target,
        groupStart, stash⟩ := tie link linked
    obtain ⟨above, owner, below, cut, kept, shape, parts, owns⟩ :=
      stacked.owner divided
    subst parts
    have stayingEq : (inForce (above ++ owner :: below)).drop
        activation.hidden = staying := by
      rw [hidden_of_link linked, divided.split, stash]
      simp
    obtain ⟨_, ownerTied, belowStacked⟩ := stacked.drop
    have frames : oldest (link.handlerFrame + 1)
        ((above ++ owner :: below).map (·.frame)) =
        owner.frame :: below.map (·.frame) := by
      have count : link.handlerFrame + 1 =
          ((owner :: below).map (·.frame)).length := by
        simp [frame, owns.index]
      rw [List.map_append, count]
      exact oldest_append
    have handlers : oldest link.groupStart
        ((inForce (above ++ owner :: below)).drop activation.hidden) =
          staying := by
      rw [stayingEq, groupStart]
      exact @oldest_append _ [] staying
    unfold Machine.abandon
    simp only [handlers, frames]
    rw [top_eq rfl, Outcome.ok_bind, setTop_eq rfl]
    refine push_safely rfl ⟨owner.completed handler value shape kept :: below,
      ⟨⟨surrounded.globals, surrounded.methods, surrounded.cells⟩, ?_,
        owns.staying, owns.fits value sound, ownerTied, belowStacked⟩,
      .abandons rfl linked own owns (frame.trans owns.index) target stackEq⟩
    simp [Activation.completed, Frame.given, depth, target]
  next unlinked =>
    cases older with
    | nil => exact ⟨surrounded.globals, surrounded.methods, surrounded.cells⟩
    | cons caller others =>
        refine Safely.onward (push_safely rfl
          ⟨{ caller with frame := caller.frame.given value } :: others,
            ⟨⟨surrounded.globals, surrounded.methods, surrounded.cells⟩, rfl,
              ?_, stacked.1.given sound, stacked.2.1, stacked.2.2⟩,
            .returns rfl unlinked own⟩)
        rw [hidden_of_unlinked unlinked]
        rfl

end Poised

/-! ## Closures -/

theorem captureBoxes_spec {frame : Frame}
    {slots : List UInt8}
    (boxed : ∀ slot ∈ slots, Boxed frame.slots slot) :
    ∃ boxes, captureBoxes frame slots = .ok boxes ∧
      boxes.length = slots.length := by
  induction slots with
  | nil => exact ⟨[], rfl, rfl⟩
  | cons slot others inner =>
      obtain ⟨cell, present⟩ := boxed slot List.mem_cons_self
      obtain ⟨boxes, boxesEq, count⟩ :=
        inner fun other member => boxed other (List.mem_cons_of_mem _ member)
      refine ⟨cell :: boxes, ?_, by simp [count]⟩
      simp only [captureBoxes, Frame.slot, present, Outcome.ok_bind, boxesEq]
      rfl

namespace Poised

variable {machine : Machine} {activation : Activation Handler}
    {older : List (Activation Handler)} {emission : Emission}

/-- A closure takes its boxes from slots that hold boxes. -/
theorem makeClosure_safely
    (poised : machine.Poised activation older emission)
    {index : UInt8} {template : Template} {good : Machine → Prop}
    (isFunction : activation.frame.template.pools.IsFunction index template)
    (pushed : ∀ closure : Closure, closure.Sound → closure.template = template →
      Safely good ((machine.take 1).push (.closure closure))) :
    Safely good (machine.makeClosure index) := by
  obtain ⟨identity, present⟩ := isFunction
  have constant : activation.frame.template.constant? index =
      some (.function identity template) := present
  cases poised.fits.closure.template with
  | intro code laidOut functions captures =>
  have member : .function identity template ∈
      activation.frame.template.constants :=
    List.mem_of_getElem? present
  have templateSound := functions identity template member
  obtain ⟨boxes, boxesEq, count⟩ := @captureBoxes_spec
    { activation.frame with ip := activation.frame.ip + emission.size }
    template.capturesOuter
    fun slot outer => poised.fits.boxes slot
      (captures identity template member slot outer)
  have paired : template.capturesOuter.length =
      template.capturesInner.length := by
    cases templateSound with
    | intro _ innerLaidOut _ _ => exact innerLaidOut.paired
  unfold Machine.makeClosure
  rw [top_eq poised.frames, Outcome.ok_bind]
  simp only [show (Frame.template { activation.frame with
    ip := activation.frame.ip + emission.size }).constant? index =
      _ from constant, boxesEq,
    Outcome.ok_bind]
  exact pushed _ ⟨templateSound, count.trans paired⟩ rfl

/-! ## Slots and globals -/

theorem slot_safely
    (poised : machine.Poised activation older emission)
    {slot : UInt8}
    (inside : slot.toNat < activation.frame.template.locals)
    {ip : Nat} :
    Safely Value.Sound
      (Frame.slot { activation.frame with ip := ip } slot) := by
  have present : slot.toNat < activation.frame.slots.length :=
    poised.fits.slots ▸ inside
  simp only [Frame.slot, List.getElem?_eq_getElem present]
  exact poised.fits.slotsSound _ (List.getElem_mem present)

/-- Reading through a box leaves its content. -/
theorem loadHeap_safely
    (poised : machine.Poised activation older emission)
    (instruction : Instruction)
    (onward : activation.code.Known (activation.frame.ip + emission.size)
      (activation.shape.raised (activation.shape.height - 0 + 1)))
    (heap : instruction.byte ∈ activation.frame.template.heapSlots) :
    Safely (Goes (instructionAt activation emission) (activation :: older))
      (machine.loadHeap instruction) := by
  obtain ⟨cell, present⟩ := poised.fits.boxes _ heap
  unfold Machine.loadHeap
  rw [top_eq poised.frames, Outcome.ok_bind]
  simp only [Frame.slot, present, Outcome.ok_bind]
  exact poised.leave onward (Nat.zero_le _) (poised.surrounded.read cell)
    poised.surrounded rfl poised.frames

/-- Writing through a box changes the store only. -/
theorem storeHeap_safely
    (poised : machine.Poised activation older emission)
    (instruction : Instruction)
    (onward : activation.code.Known (activation.frame.ip + emission.size)
      (activation.shape.raised (activation.shape.height - 1 + 0)))
    (enough : 1 ≤ activation.shape.height)
    (heap : instruction.byte ∈ activation.frame.template.heapSlots) :
    Safely (Goes (instructionAt activation emission) (activation :: older))
      (machine.storeHeap instruction) := by
  obtain ⟨cell, present⟩ := poised.fits.boxes _ heap
  obtain ⟨value, stack, stackEq, sound⟩ := poised.stack_one enough
  unfold Machine.storeHeap
  rw [pop_eq poised.frames stackEq, Outcome.ok_bind]
  simp only
  rw [top_eq rfl, Outcome.ok_bind]
  simp only [Frame.slot, present, Outcome.ok_bind]
  have written := poised.surrounded.write cell sound
  refine poised.advance [] onward enough (by simp) rfl
    (fun _ _ => rfl) poised.fits.slotsSound
    ⟨written.globals, written.methods, written.cells⟩ rfl ?_
  simp [stackEq]

/-- Writing a slot without a box changes that slot only. -/
theorem storeLocal_safely
    (poised : machine.Poised activation older emission)
    {slot : UInt8}
    (onward : activation.code.Known (activation.frame.ip + emission.size)
      (activation.shape.raised (activation.shape.height - 1 + 0)))
    (enough : 1 ≤ activation.shape.height)
    (inside : slot.toNat < activation.frame.template.locals)
    (direct : slot ∉ activation.frame.template.heapSlots) :
    Safely (Flows (instructionAt activation emission) (activation :: older)) (do
      let (value, popped) ←
        Frame.pop { activation.frame with ip :=
          activation.frame.ip + emission.size }
      let stored ← popped.setSlot slot value
      return .onward (machine.setTop stored)) := by
  obtain ⟨value, stack, stackEq, sound⟩ := poised.stack_one enough
  have present : slot.toNat < activation.frame.slots.length :=
    poised.fits.slots ▸ inside
  simp only [Frame.pop, stackEq, Outcome.ok_bind, Frame.setSlot,
    present, if_true, setTop_eq poised.frames]
  refine poised.advance [] onward enough (by simp) (List.length_set) ?_
    (forall_sound_set poised.fits.slotsSound slot.toNat sound)
    ⟨poised.surrounded.globals, poised.surrounded.methods,
      poised.surrounded.cells⟩ rfl ?_
  · intro other heap
    refine List.getElem?_set_ne ?_
    intro same
    exact direct (UInt8.toNat_inj.1 same ▸ heap)
  · simp [stackEq]

theorem operandName_eq {template : Template} {index : UInt8}
    (inside : index.toNat < template.names.length) :
    ∃ name, template.name? index = some name ∧
      operandName template index = .ok name := by
  refine ⟨template.names[index.toNat], List.getElem?_eq_getElem inside, ?_⟩
  simp only [operandName, Template.name?, List.getElem?_eq_getElem inside]

/-! ## All instructions -/

/-- An instruction behind which control goes on runs safely. -/
theorem execute_plain
    (poised : machine.Poised activation older emission)
    (plain : emission.isPlain)
    (enough : emission.pops ≤ activation.shape.height)
    (onward : activation.code.Known (activation.frame.ip + emission.size)
      (activation.shape.raised
        (activation.shape.height - emission.pops + emission.pushes))) :
    Safely (Flows (instructionAt activation emission) (activation :: older))
      (machine.execute (instructionAt activation emission)) := by
  have surrounded := poised.surrounded
  have sameSurrounded {frames : List Frame} {handlers : List Handler} :
      ({ machine with frames := frames, handlers := handlers } :
        Machine).Surrounded :=
    ⟨surrounded.globals, surrounded.methods, surrounded.cells⟩
  have valid := poised.valid
  obtain ⟨opcode, operands⟩ := emission
  unfold Machine.execute
  rw [top_eq poised.frames, Outcome.ok_bind]
  cases opcode
  case loadConst =>
    obtain ⟨value, present, scalar⟩ := valid
    have operation : (instructionAt activation ⟨.loadConst, operands⟩).opcode =
        .loadConst := rfl
    have constant : activation.frame.template.constant?
        (instructionAt activation ⟨.loadConst, operands⟩).byte =
          some value := present
    have template : ({ activation.frame with
        ip := activation.frame.ip + Emission.size ⟨.loadConst, operands⟩ } :
          Frame).template =
      activation.frame.template := rfl
    simp only [operation, template, constant]
    exact (poised.leave onward enough
      (Value.Sound.stable.kept.of_isScalar scalar) surrounded rfl
        poised.frames).onward
  case pushNil =>
    exact (poised.leave onward enough .nil surrounded rfl poised.frames).onward
  case pushTrue =>
    exact (poised.leave onward enough (.bool true) surrounded rfl
      poised.frames).onward
  case pushFalse =>
    exact (poised.leave onward enough (.bool false) surrounded rfl
      poised.frames).onward
  case loadLocal =>
    by_cases heap : Emission.byte ⟨.loadLocal, operands⟩ ∈
      activation.frame.template.heapSlots
    · have boxed : (instructionAt activation ⟨.loadLocal, operands⟩).opcode =
          .loadHeap := if_pos heap
      simp only [boxed]
      exact (poised.loadHeap_safely
        (instructionAt activation ⟨.loadLocal, operands⟩) onward
        heap).onward
    · have direct : (instructionAt activation ⟨.loadLocal, operands⟩).opcode =
          .loadLocal := if_neg heap
      simp only [direct]
      exact (poised.slot_safely valid).bind fun value sound =>
        (poised.leave onward enough sound surrounded rfl poised.frames).onward
  case storeLocal =>
    by_cases heap : Emission.byte ⟨.storeLocal, operands⟩ ∈
      activation.frame.template.heapSlots
    · have boxed : (instructionAt activation ⟨.storeLocal, operands⟩).opcode =
          .storeHeap := if_pos heap
      simp only [boxed]
      exact (poised.storeHeap_safely
        (instructionAt activation ⟨.storeLocal, operands⟩) onward enough
        heap).onward
    · have direct : (instructionAt activation ⟨.storeLocal, operands⟩).opcode =
          .storeLocal := if_neg heap
      simp only [direct]
      exact poised.storeLocal_safely onward enough valid heap
  case loadGlobal =>
    obtain ⟨name, _, named⟩ := operandName_eq valid
    change Safely _ (operandName activation.frame.template
      (Emission.byte ⟨.loadGlobal, operands⟩) >>= _)
    rw [show operandName activation.frame.template
        (Emission.byte ⟨.loadGlobal, operands⟩) =
      .ok name from named, Outcome.ok_bind]
    split
    next value found =>
      obtain ⟨entry, member, rfl⟩ := Dictionary.mem_of_find? found
      exact (poised.leave onward enough (surrounded.globals entry member)
        surrounded rfl
        poised.frames).onward
    next => trivial
  case storeGlobal =>
    obtain ⟨name, _, named⟩ := operandName_eq valid
    obtain ⟨value, stack, stackEq, sound⟩ := poised.stack_one enough
    change Safely _ (operandName activation.frame.template
      (Emission.byte ⟨.storeGlobal, operands⟩) >>= _)
    rw [show operandName activation.frame.template
        (Emission.byte ⟨.storeGlobal, operands⟩) =
      .ok name from named, Outcome.ok_bind, pop_eq poised.frames stackEq,
      Outcome.ok_bind]
    refine poised.advance [] onward enough (by simp) rfl
      (fun _ _ => rfl) poised.fits.slotsSound
      ⟨?_, surrounded.methods, surrounded.cells⟩ rfl ?_
    · intro entry member
      rcases Dictionary.mem_insert member with rfl | old
      · exact sound
      · exact surrounded.globals entry old
    · simp [stackEq, Emission.pops]
  case pop =>
    obtain ⟨value, stack, stackEq, _⟩ := poised.stack_one enough
    change Safely _ (machine.pop >>= _)
    rw [pop_eq poised.frames stackEq, Outcome.ok_bind]
    refine poised.advance [] onward enough (by simp) rfl
      (fun _ _ => rfl) poised.fits.slotsSound sameSurrounded rfl ?_
    simp [stackEq, Emission.pops]
  case call =>
    exact (poised.call_safely rfl rfl ⟨by rintro ⟨⟩, by rintro ⟨⟩⟩ onward
      enough).onward
  case add | sub | mul | div | eq | lt | gt =>
    exact (poised.binaryOperator_safely rfl rfl ⟨by rintro ⟨⟩, by rintro ⟨⟩⟩
      onward enough).onward
  case not =>
    obtain ⟨value, stack, stackEq, _⟩ := poised.stack_one enough
    change Safely _ (machine.pop >>= _)
    rw [pop_eq poised.frames stackEq, Outcome.ok_bind]
    refine Safely.onward (poised.leave onward enough (.bool _)
      ⟨surrounded.globals, surrounded.methods, surrounded.cells⟩ rfl ?_)
    simp [stackEq, Emission.pops]
  case neg =>
    exact (poised.negate_safely rfl rfl ⟨by rintro ⟨⟩, by rintro ⟨⟩⟩ onward
      enough).onward
  case makeClosure =>
    obtain ⟨template, isFunction⟩ := valid
    refine (poised.makeClosure_safely isFunction
      fun closure sound _ => ?_).onward
    exact poised.leave onward enough (.closure sound)
      (surrounded.take 1).surrounded rfl poised.frames
  case perform =>
    obtain ⟨name, _, named⟩ := operandName_eq valid
    change Safely _ (operandName activation.frame.template
      (Emission.byte ⟨.perform, operands⟩) >>= _)
    rw [show operandName activation.frame.template
        (Emission.byte ⟨.perform, operands⟩) =
      .ok name from named, Outcome.ok_bind]
    exact (poised.perform_safely rfl rfl rfl onward enough).onward
  case popHandlers =>
    have none : Emission.byte ⟨.popHandlers, operands⟩ = 0 := by
      simpa [Emission.isPlain] using plain
    refine poised.advance [] onward enough (by simp) rfl
      (fun _ _ => rfl) poised.fits.slotsSound sameSurrounded ?_ poised.frames
    rw [show (instructionAt activation ⟨.popHandlers, operands⟩).byte =
      0 from none]
    rfl
  case comment =>
    exact poised.advance [] onward enough (by simp) rfl
      (fun _ _ => rfl) poised.fits.slotsSound surrounded rfl poised.frames
  all_goals cases plain

/-- Control goes on at another point of the function. -/
theorem jump_safely
    (poised : machine.Poised activation older emission)
    {place : Nat} {shape : Shape}
    (sameShape : shape = activation.shape)
    (known : activation.code.Known place shape) :
    Goes (instructionAt activation emission) (activation :: older)
      (machine.setTop { activation.frame with ip := place }) := by
  subst sameShape
  have fits := poised.fits
  have surrounded := poised.surrounded
  rw [setTop_eq poised.frames]
  refine ⟨_, @settle _ _ _ _ _ _ activation.shape activation.own poised
    ⟨surrounded.globals, surrounded.methods, surrounded.cells⟩ rfl
    poised.handlers rfl ?_,
    .works ⟨rfl, rfl, fun _ _ => rfl⟩ rfl ⟨0, [], Nat.zero_le _, rfl⟩⟩
  exact ⟨fits.closure, fits.laidOut, known, fits.height, fits.room, fits.made,
    fits.own, fits.slots, fits.boxes, fits.stackSound, fits.slotsSound⟩

/-- A conditional jump goes on at one of two points. -/
theorem jumpIfFalse_safely {distance : Nat}
    (poised : machine.Poised activation older
      ⟨.jumpIfFalse, Instruction.shortBytes distance⟩)
    (small : distance ≤ 65535)
    (decided : 0 < activation.shape.height)
    (onward : activation.code.Known (activation.frame.ip + 3)
      (activation.shape.raised (activation.shape.height - 1)))
    (around : activation.code.Known (activation.frame.ip + 3 + distance)
      (activation.shape.raised (activation.shape.height - 1))) :
    Safely
      (Flows (instructionAt activation
        ⟨.jumpIfFalse, Instruction.shortBytes distance⟩)
        (activation :: older))
      (machine.execute (instructionAt activation
        ⟨.jumpIfFalse, Instruction.shortBytes distance⟩)) := by
  obtain ⟨condition, stack, stackEq, _⟩ := poised.stack_one decided
  have surrounded := poised.surrounded
  have goes {place : Nat} (known : activation.code.Known place
      (activation.shape.raised (activation.shape.height - 1))) :
      Goes
        (instructionAt activation
          ⟨.jumpIfFalse, Instruction.shortBytes distance⟩)
        (activation :: older)
        (machine.setTop { activation.frame with ip := place, stack :=
          stack }) := by
    rw [setTop_eq poised.frames]
    refine poised.advance [] known decided (by simp) rfl
      (fun _ _ => rfl) poised.fits.slotsSound
      ⟨surrounded.globals, surrounded.methods, surrounded.cells⟩ rfl ?_
    simp [stackEq]
  unfold Machine.execute
  rw [top_eq poised.frames, Outcome.ok_bind]
  change Safely _ (Frame.pop _ >>= _)
  simp only [Frame.pop, stackEq, Outcome.ok_bind]
  split
  · exact goes onward
  · rw [show (instructionAt activation
        ⟨.jumpIfFalse, Instruction.shortBytes distance⟩).short =
      distance from Instruction.bigEndian_shortBytes small]
    exact goes around

/-- The closure for a handler is on top of the operand stack. -/
theorem making_safely {function : UInt8}
    (poised : machine.Poised activation older ⟨.makeClosure, [function]⟩)
    (onward : activation.code.Known (activation.frame.ip + 2)
      (activation.shape.making function)) :
    Safely
      (Goes (instructionAt activation ⟨.makeClosure, [function]⟩)
        (activation :: older))
      (machine.makeClosure function) := by
  have fits := poised.fits
  have surrounded := poised.surrounded
  obtain ⟨template, isFunction⟩ := poised.valid
  refine poised.makeClosure_safely isFunction fun closure sound templateEq => ?_
  refine push_safely poised.frames
    ⟨_, @settle _ _ _ _ _ _ (activation.shape.making function)
    activation.own poised
    ⟨surrounded.globals, surrounded.methods, surrounded.cells⟩ rfl
    poised.handlers rfl ?_,
    .works ⟨rfl, rfl, fun _ _ => rfl⟩ rfl
      ⟨0, [.closure closure], Nat.zero_le _, rfl⟩⟩
  refine ⟨fits.closure, fits.laidOut, onward, ?_, Nat.zero_le _, ?_, fits.own,
    fits.slots, fits.boxes, ?_, fits.slotsSound⟩
  · have height := fits.height
    simp only [Shape.depth, Shape.making, Frame.given, List.length_cons]
      at height ⊢
    omega
  · rintro _ ⟨⟩
    exact ⟨rfl, closure, activation.frame.stack, rfl, templateEq ▸ isFunction⟩
  · intro value member
    rcases List.mem_cons.1 member with rfl | old
    · exact .closure sound
    · exact fits.stackSound value old

/-- Every instruction of a sound machine runs safely. -/
theorem execute_safely (poised : machine.Poised activation older emission) :
    Safely (Flows (instructionAt activation emission) (activation :: older))
      (machine.execute (instructionAt activation emission)) := by
  obtain ⟨follows, _, _, _⟩ := poised.fits.laidOut.follow poised.here
  have valid := poised.valid
  rcases follows with leads | ⟨rfl, shapeEq⟩
  · cases leads with
    | plain plain enough onward =>
        exact poised.execute_plain plain enough onward
    | @jump distance small onward =>
        unfold Machine.execute
        rw [top_eq poised.frames, Outcome.ok_bind,
          show (instructionAt activation
            ⟨.jump, Instruction.shortBytes distance⟩).short = distance
            from Instruction.bigEndian_shortBytes small]
        exact poised.jump_safely rfl onward
    | @jumpIfFalse distance small decided onward around =>
        exact poised.jumpIfFalse_safely small decided onward around
    | @loop distance small inside back =>
        unfold Machine.execute
        rw [top_eq poised.frames, Outcome.ok_bind,
          show (instructionAt activation
            ⟨.loop, Instruction.shortBytes distance⟩).short = distance
            from Instruction.bigEndian_shortBytes small]
        change Safely _ (if distance ≤ activation.frame.ip + 3 then _ else _)
        rw [if_pos inside]
        exact poised.jump_safely rfl back
    | @making function onward =>
        unfold Machine.execute
        rw [top_eq poised.frames, Outcome.ok_bind]
        exact (poised.making_safely onward).onward
    | @registering before function effect distance small made onward =>
        obtain ⟨name, present, named⟩ := operandName_eq valid
        unfold Machine.execute
        rw [top_eq poised.frames, Outcome.ok_bind,
          show (instructionAt activation
              ⟨.setHandler, effect :: Instruction.shortBytes
                distance⟩).trailingShort = distance
            from Instruction.bigEndian_shortBytes small]
        change Safely _ (operandName activation.frame.template effect >>= _)
        rw [show operandName activation.frame.template effect =
          .ok name from named,
          Outcome.ok_bind]
        exact (poised.setHandler_safely small made onward present).onward
    | @closing group rest floor height small single level split ends onward =>
        unfold Machine.execute
        rw [top_eq poised.frames, Outcome.ok_bind]
        exact poised.popHandlers_safely small single level split ends onward
  · unfold Machine.execute
    rw [top_eq poised.frames, Outcome.ok_bind]
    exact poised.returnValue_safely shapeEq

end Poised

end Machine

end EffectScript
