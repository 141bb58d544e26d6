import EffectScript.Proofs.Effects

/-!
# Attempts complete cleanly

An attempt is under way in an activation from the registration of its first
handler on. As long as the activation has not reached the end of the attempt,
the handler stays among its own, and nothing beneath the floor of its operand
stack is touched. So wherever the attempt ends, whether its body completes or a
handler returns without resuming, the activation finds its stack and the
handlers as they were.
-/

namespace EffectScript

open Activation

/-- The end of the attempt that an instruction registers a handler for. -/
def Instruction.attemptEnd (instruction : Instruction) : Nat :=
  instruction.next + instruction.trailingShort

/-- The code of an attempt begins at `start` and ends before `stop`: it makes a
closure and registers it as a handler of an attempt that ends at `stop`, and it
is the first that does so. -/
structure Template.IsAttempt (template : Template) (start stop : Nat) :
    Prop where
  makes : ∃ making, Instruction.decode template.code start = .ok making ∧
    making.opcode = .makeClosure
  registers : ∃ registering, Instruction.decode template.code (start + 2) =
      .ok registering ∧
    registering.opcode = .setHandler ∧ registering.attemptEnd = stop
  first : ∀ other ∈ (Instruction.walk template.code).instructions,
    other.opcode = .setHandler →
    other.attemptEnd = stop → start < other.offset

theorem Template.isAttempt_iff {template : Template} {start stop : Nat} :
    ((∃ making ∈ (Instruction.decode template.code start).toOption,
      making.opcode = .makeClosure) ∧
      (∃ registering ∈ (Instruction.decode template.code (start + 2)).toOption,
        registering.opcode = .setHandler ∧ registering.attemptEnd = stop) ∧
      ∀ other ∈ (Instruction.walk template.code).instructions,
        other.opcode = .setHandler →
        other.attemptEnd = stop → start < other.offset) ↔
        template.IsAttempt start stop := by
  have decoded (offset : Nat) (instruction : Instruction) :
      instruction ∈ (Instruction.decode template.code offset).toOption ↔
        Instruction.decode template.code offset = .ok instruction := by
    cases Instruction.decode template.code offset <;> simp [Except.toOption]
  simp only [decoded]
  constructor
  · rintro ⟨makes, registers, first⟩
    exact ⟨makes, registers, first⟩
  · intro attempt
    exact ⟨attempt.makes, attempt.registers, attempt.first⟩

instance (template : Template) (start stop : Nat) :
    Decidable (template.IsAttempt start stop) :=
  decidable_of_iff _ Template.isAttempt_iff

theorem Instruction.offset_of_decode {code : Array UInt8}
    {offset : Nat} {instruction : Instruction}
    (decodes : Instruction.decode code offset = .ok instruction) :
    instruction.offset = offset := by
  unfold Instruction.decode at decodes
  split at decodes
  · cases decodes
  · split at decodes
    · cases decodes
    · split at decodes
      · cases decodes
        rfl
      · cases decodes

namespace Template.LaidOut

variable {template : Template} {code : Code} {registering : Instruction}

/-- Whatever becomes a handler was made by the instruction before. -/
theorem made_before
    (laidOut : template.LaidOut code)
    (member : registering ∈ (Instruction.walk template.code).instructions)
    (operation : registering.opcode = .setHandler) :
    ∃ place making, registering.offset = place + 2 ∧
      Instruction.decode template.code place = .ok making ∧
      making.opcode = .makeClosure := by
  obtain ⟨shape, emission, here, placedEq⟩ := laidOut.at_of_mem_walk member
  have opcode : emission.opcode = .setHandler := by
    rw [placedEq] at operation
    exact Emission.opcode_of_written (by decide) operation
  obtain ⟨_, operands⟩ := emission
  cases opcode
  obtain ⟨leads | ⟨impossible, _⟩, _⟩ := laidOut.follow here
  · cases leads with
    | plain plain => cases plain
    | registering _ made _ =>
        obtain ⟨_, place, before, offset, there⟩ :=
          laidOut.made here (by rw [made]; rfl)
        exact ⟨place, _, offset, laidOut.decode there, rfl⟩
  · cases impossible

/-- Every handler that the code registers belongs to an attempt. -/
theorem exists_isAttempt
    (laidOut : template.LaidOut code)
    (member : registering ∈ (Instruction.walk template.code).instructions)
    (operation : registering.opcode = .setHandler) :
    ∃ first, first < registering.offset ∧
      template.IsAttempt first registering.attemptEnd := by
  induction place : registering.offset using Nat.strong_induction_on
    generalizing registering with
  | h offset inner =>
      subst place
      by_cases earlier :
        ∃ other ∈ (Instruction.walk template.code).instructions,
          other.opcode = .setHandler ∧
          other.attemptEnd = registering.attemptEnd ∧
            other.offset < registering.offset
      · obtain ⟨other, held, registers, ends, less⟩ := earlier
        obtain ⟨first, before, attempt⟩ :=
          inner other.offset less held registers rfl
        exact ⟨first, Nat.lt_trans before less, ends ▸ attempt⟩
      · obtain ⟨place, making, offset, decodes, makes⟩ :=
          laidOut.made_before member operation
        obtain ⟨_, _, here, placedEq⟩ := laidOut.at_of_mem_walk member
        refine ⟨place, by omega, ⟨making, decodes, makes⟩,
          ⟨registering, ?_, operation, rfl⟩, ?_⟩
        · rw [← offset, laidOut.decode here, ← placedEq]
        · intro other held registers ends
          by_contra before
          exact earlier ⟨other, held, registers, ends, by omega⟩

end Template.LaidOut

namespace Activation

variable {activation : Activation Handler} {index awaiting : Nat}
    {handler : Handler}

/-- Where an attempt begins, none of its handlers is registered. -/
theorem Fits.unregistered {stop : Nat}
    (fits : activation.Fits index awaiting)
    (attempt : activation.frame.template.IsAttempt activation.frame.ip stop)
    (member : handler ∈ activation.own) :
    handler.target ≠ stop := by
  intro same
  obtain ⟨registration, held, answers⟩ := forall₂_mem_right fits.own member
  obtain ⟨emission, here⟩ := fits.known
  have encloses := (fits.laidOut.enclosed here).2 registration held
  obtain ⟨before, distance, small, there, target⟩ := encloses.placed
  have later := attempt.first _ (fits.laidOut.mem_walk there) rfl (by
    have read := Instruction.bigEndian_shortBytes small
    rw [← same, answers.target, target]
    exact congrArg (registration.site + 4 + ·) read)
  exact Nat.lt_asymm encloses.after later

/-! ## Attempts under way -/

/-- The attempt that an activation began by registering a handler is under way
in a later state of the activation. -/
structure UnderWay
    (origin : Activation Handler)
    (handler : Handler)
    (current : Activation Handler) : Prop where
  continues : origin.frame.Continues current.frame
  code : current.code = origin.code
  own : ∃ front, current.own = front ++ handler :: origin.own
  stack : origin.frame.stack <:+ current.frame.stack

namespace UnderWay

variable {origin current kept : Activation Handler} {instruction : Instruction}
  {newer older : List (Activation Handler)}

/-- The attempt stays under way until the activation reaches its end. -/
theorem step
    (underWay : UnderWay origin handler current)
    (fits : current.Fits index awaiting)
    (moves : current.Moves instruction newer kept)
    {waiting : Nat}
    (keptFits : kept.Fits index waiting)
    (depth : handler.depth = origin.frame.stack.length)
    (inside : kept.frame.ip < handler.target) :
    UnderWay origin handler kept := by
  obtain ⟨front, ownEq⟩ := underWay.own
  have own : ∃ front, kept.own = front ++ handler :: origin.own := by
    rcases moves.own with same | ⟨_, _, added, addedEq⟩ | ⟨_, gone, split, ends⟩
    · exact ⟨front, same.trans ownEq⟩
    · exact ⟨added :: front, by rw [addedEq, ownEq, List.cons_append]⟩
    · rw [ownEq] at split
      rcases List.append_eq_append_iff.1
        split with ⟨rest, _, keptEq⟩ | ⟨rest, goneEq, keptEq⟩
      · cases rest with
        | nil => exact ⟨[], keptEq.symm⟩
        | cons first others =>
            obtain ⟨rfl, _⟩ := List.cons.inj keptEq
            have past := ends handler (by simp_all)
            omega
      · exact ⟨rest, keptEq⟩
  obtain ⟨keptFront, keptOwn⟩ := own
  obtain ⟨_, low, _⟩ := fits.owned (show handler ∈ current.own by simp [ownEq])
  obtain ⟨_, keptLow, _⟩ :=
    keptFits.owned (show handler ∈ kept.own by simp [keptOwn])
  refine ⟨underWay.continues.trans moves.continues,
    moves.code.trans underWay.code, ⟨keptFront, keptOwn⟩, ?_⟩
  exact moves.stack _ underWay.stack (depth ▸ low) (.inl (depth ▸ keptLow))

/-- Where the attempt ends, the activation is the newest one, its handlers are
those that it had, and there is one more value on its operand stack. -/
theorem finish
    (underWay : UnderWay origin handler current)
    (fits : current.Fits older.length awaiting)
    (moves : current.Moves instruction newer kept)
    (stacked : Stacked 0 (newer ++ kept :: older))
    (depth : handler.depth = origin.frame.stack.length)
    (unregistered : ∀ other ∈ origin.own, other.target ≠ handler.target)
    (ends : kept.frame.ip = handler.target) :
    newer = [] ∧ kept.own = origin.own ∧
    ∃ value, kept.frame.stack = value :: origin.frame.stack := by
  obtain ⟨front, ownEq⟩ := underWay.own
  obtain ⟨floor, height, rest, level, restOwn, landing⟩ := fits.landing ownEq
  obtain ⟨waiting, keptFits⟩ := stacked.fits
  have whole :
      rest.dropWhile (fun other => other.target = handler.target) = rest := by
    cases rest with
    | nil => rfl
    | cons first others =>
        obtain ⟨other, _, answers, _, originOwn⟩ :=
          List.forall₂_cons_left_iff.1 restOwn
        have apart := unregistered other (by simp [originOwn])
        rw [answers.target] at apart
        exact List.dropWhile_cons_of_neg (by simpa using apart)
  have shape : kept.shape = ⟨floor, height + 1, rest, none⟩ := by
    refine (ends ▸ keptFits.known).unique ?_
    rw [moves.code, ← whole]
    exact landing
  have count : kept.own.length = origin.own.length := by
    rw [← keptFits.own.length_eq, shape]
    exact restOwn.length_eq
  rcases moves.own with same | ⟨_, _, added, addedEq⟩ | ⟨rfl, gone, split, _⟩
  · rw [same, ownEq, List.length_append, List.length_cons] at count
    omega
  · rw [addedEq, ownEq, List.length_cons, List.length_append, List.length_cons]
      at count
    omega
  · refine ⟨rfl, ?_, ?_⟩
    · have early : kept.own <:+ current.own := ⟨gone, split.symm⟩
      have late : origin.own <:+ current.own :=
        ⟨front ++ [handler], by simp [ownEq]⟩
      exact (List.suffix_of_suffix_length_le early late
        (Nat.le_of_eq count)).eq_of_length count
    · have tall : kept.frame.stack.length = origin.frame.stack.length + 1 := by
        have height := stacked.1.height
        rw [shape] at height
        simp only [Shape.depth] at height
        omega
      obtain ⟨_, low, _⟩ :=
        fits.owned (show handler ∈ current.own by simp [ownEq])
      obtain ⟨top, stackEq⟩ :=
        moves.stack _ underWay.stack (depth ▸ low) (.inr (by omega))
      rw [← stackEq, List.length_append] at tall
      obtain ⟨value, rfl⟩ :=
        List.length_eq_one_iff.1 (by omega : top.length = 1)
      exact ⟨value, stackEq.symm⟩

end UnderWay

end Activation

namespace Machine

/-! ## Runs -/

/-- The newest frame of the machine `before`, which the run reaches after
`first` steps, begins an attempt there, and it has not reached the end of the
attempt before `last` steps. -/
structure Attempting
    (start : Machine) (first last : Nat) (before : Machine) (frame : Frame)
    (below : List Frame) (stop : Nat) : Prop where
  reaches : start.reached first = some before
  frames : before.frames = frame :: below
  attempt : frame.template.IsAttempt frame.ip stop
  order : first < last
  inside : ∀ count during, first < count → count < last →
    start.reached count = some during →
    ∃ current, during.FrameAt below.length current ∧ current.ip < stop

/-- What the step of a machine leaves on the operand stack of a frame where an
attempt of it ends: the value that the body has left there, or the one that a
handler of the attempt returns. -/
inductive Concludes (machine : Machine) (frame : Frame) (below : List Frame)
    (stop : Nat) :
    Value → Prop
  /-- The body is through, and its value is on top of the operand stack. -/
  | body {current : Frame} {instruction : Instruction} {value : Value}
      (frames : machine.frames = current :: below)
      (executes : machine.instruction? = some instruction)
      (operation : instruction.opcode = .popHandlers)
        (next : instruction.next = stop)
      (stack : current.stack = value :: frame.stack) :
        Concludes machine frame below stop value
  /-- A handler of the attempt returns its value; it has not resumed. -/
  | handler {callee : Frame} {others : List Frame} {link : EffectLink}
      {instruction : Instruction} {value : Value}
        (frames : machine.frames = callee :: others)
      (executes : machine.instruction? = some instruction)
      (operation : instruction.opcode = .return)
        (linked : callee.link = some link)
      (owner : link.handlerFrame = below.length) (target : link.target = stop)
      (stack : callee.stack = [value]) :
        Concludes machine frame below stop value

variable {start before after during : Machine} {first last count stop : Nat}
    {frame ended : Frame} {below : List Frame} {origin : Activation Handler}
    {older : List (Activation Handler)}

/-- An attempt begins with the registration of its first handler. -/
theorem Sound.begins
    (sound : before.Sound (origin :: older))
    (attempt : origin.frame.template.IsAttempt origin.frame.ip stop)
    (reaches : start.reached first = some before)
    (reachesSecond : start.reached (first + 2) = some during) :
    ∃ current handler, during.Sound (current :: older) ∧
      UnderWay origin handler current ∧
      handler.depth = origin.frame.stack.length ∧ handler.target = stop := by
  obtain ⟨middle, reachesMiddle, registers⟩ := reached_succ.1 reachesSecond
  obtain ⟨same, reachesSame, makes⟩ := reached_succ.1 reachesMiddle
  cases reaches.symm.trans reachesSame
  obtain ⟨making, decodesMaking, makesClosure⟩ := attempt.makes
  obtain ⟨registering, decodesRegistering, setsHandler, ends⟩ :=
    attempt.registers
  obtain ⟨made, value, madeSound, madeOwn, madeFrame, madeMoves⟩ :=
    sound.makes_closure ((instruction?_eq_some sound.frames).2 decodesMaking)
      makesClosure makes
  have place : making.next = origin.frame.ip + 2 := by
    rw [Instruction.next, Instruction.offset_of_decode decodesMaking,
      makesClosure]
    rfl
  have executes : middle.instruction? = some registering := by
    refine (instruction?_eq_some madeSound.frames).2 ?_
    show Instruction.decode made.frame.template.code made.frame.ip =
      .ok registering
    rw [madeFrame]
    exact place ▸ decodesRegistering
  obtain ⟨current, handler, currentSound, own, isRegistered,
      currentFrame, moves⟩ :=
    madeSound.registers_handler executes setsHandler registers
  have stack : current.frame.stack = origin.frame.stack := by
    rw [currentFrame, madeFrame]; rfl
  refine ⟨current, handler, currentSound,
    ⟨madeMoves.continues.trans moves.continues, moves.code.trans madeMoves.code,
      ⟨[], by rw [own, madeOwn]; rfl⟩, stack ▸ List.suffix_rfl⟩, ?_,
    isRegistered.target.trans ends⟩
  obtain ⟨rest, madeStack, depth⟩ := isRegistered.stack
  rw [madeFrame] at madeStack
  rw [depth, ← (List.cons.inj madeStack).2]

/-- The end of an attempt comes after the registration of its first handler. -/
theorem Attempting.late
    (attempting : Attempting start first last before frame below stop)
    (sound : before.Sound (origin :: older))
    (reaches : start.reached last = some after)
    (live : after.FrameAt below.length ended)
    (ends : ended.ip = stop) :
    first + 2 < last := by
  obtain ⟨rfl, rfl⟩ := List.cons.inj (attempting.frames.symm.trans sound.frames)
  rw [List.length_map] at live
  have order := attempting.order
  by_contra early
  obtain rfl | rfl : last = first + 1 ∨ last = first + 2 := by omega
  · obtain ⟨same, reachesSame, makes⟩ := reached_succ.1 reaches
    cases attempting.reaches.symm.trans reachesSame
    obtain ⟨making, decodesMaking, makesClosure⟩ := attempting.attempt.makes
    obtain ⟨registering, decodesRegistering, _, stopEq⟩ :=
      attempting.attempt.registers
    obtain ⟨made, value, madeSound, _, madeFrame, _⟩ :=
      sound.makes_closure ((instruction?_eq_some sound.frames).2 decodesMaking)
        makesClosure makes
    cases (@Sound.frameAt _ [] older made madeSound ended).1 live
    have offset := Instruction.offset_of_decode decodesRegistering
    have positive := registering.opcode.size_pos
    rw [madeFrame] at ends
    simp only [Instruction.next, Instruction.offset_of_decode decodesMaking,
      makesClosure] at ends
    simp only [Instruction.attemptEnd, Instruction.next, offset] at stopEq
    have width : Opcode.makeClosure.size = 2 := rfl
    omega
  · obtain ⟨current, handler, currentSound, underWay, _, target⟩ :=
      sound.begins attempting.attempt attempting.reaches reaches
    cases (@Sound.frameAt _ [] older current currentSound ended).1 live
    obtain ⟨front, own⟩ := underWay.own
    obtain ⟨_, _, inside⟩ :=
      currentSound.stacked.1.owned (show handler ∈ current.own by simp [own])
    omega

/-- Until the end of the attempt is reached, the attempt is under way. -/
theorem Attempting.underWay
    (started : Started start)
    (attempting : Attempting start first last before frame below stop)
    (sound : before.Sound (origin :: older))
    (order : first + 2 ≤ count)
    (upTo : count < last)
    (reachesCount : start.reached count = some during) :
    ∃ newer current handler, during.Sound (newer ++ current :: older) ∧
      UnderWay origin handler current ∧
      handler.depth = origin.frame.stack.length ∧
      handler.target = stop := by
  obtain ⟨rfl, rfl⟩ := List.cons.inj (attempting.frames.symm.trans sound.frames)
  induction order generalizing during with
  | refl =>
      obtain ⟨current, handler, currentSound, underWay, depth, target⟩ :=
        sound.begins attempting.attempt attempting.reaches reachesCount
      exact ⟨[], current, handler, currentSound, underWay, depth, target⟩
  | @step count order inner =>
      obtain ⟨machine, instruction, steps⟩ := started.steps reachesCount
      obtain ⟨newer, current, handler, machineSound, underWay, depth, target⟩ :=
        inner (by omega) steps.reaches
      obtain ⟨later, laterSound, change⟩ := steps.change machineSound (by simp)
      obtain ⟨frame, live, inside⟩ := attempting.inside (count + 1) during
        (Nat.lt_of_lt_of_le (by omega) (Nat.succ_le_succ order)) upTo
          reachesCount
      rw [List.length_map] at live
      obtain ⟨onward, kept, rfl, moves⟩ := change.persists machineSound.stacked
        (by rw [← laterSound.length_frames]; exact live.lt)
      cases laterSound.frameAt.1 live
      obtain ⟨_, fits⟩ := machineSound.stacked.fits
      obtain ⟨_, keptFits⟩ := laterSound.stacked.fits
      exact ⟨onward, kept, handler, laterSound,
        underWay.step fits moves keptFits depth (target ▸ inside),
        depth, target⟩

/-- The step in which handlers of an activation go out of force concludes an
attempt of it. -/
theorem Sound.concludes {newer : List (Activation Handler)}
    {current kept : Activation Handler} {instruction : Instruction}
    {value : Value}
    (sound : during.Sound (newer ++ current :: older))
    (executes : during.instruction? = some instruction)
    (steps : during.step = .running after)
    (change : Change instruction (newer ++ current :: older) (kept :: older))
    (keptSound : after.Sound (kept :: older))
    (fewer : kept.own.length < current.own.length)
    (stack : kept.frame.stack = value :: frame.stack)
    (ends : kept.frame.ip = stop) :
    during.Concludes frame (older.map (·.frame)) stop value := by
  rcases change.loses fewer with ⟨rfl, operation, untouched⟩ |
    ⟨callee, above, link, returned, rfl, operation, linked, owner, target,
      calleeStack, head⟩
  · have frames := sound.frames.trans List.map_cons
    have onward := step_popHandlers frames
      ((instruction?_eq_some frames).1 executes) operation steps
    have same : kept.frame = _ :=
      (List.cons.inj (keptSound.frames.symm.trans onward)).1
    rw [same] at ends
    exact .body frames executes operation ends (untouched.symm.trans stack)
  · obtain rfl : returned = value := by simpa [stack] using head.symm
    have frames := sound.frames.trans List.map_cons
    exact .handler frames executes operation linked
      (by rw [owner, List.length_map]) (target.trans ends) calleeStack

/-- When control reaches the end of an attempt, the call that began it goes on
as it was, with one more value, which is that of the body or of the handler. -/
theorem Attempting.completes
    (started : Started start)
    (attempting : Attempting start first last before frame below stop)
    (reaches : start.reached last = some after)
    (live : after.FrameAt below.length ended)
    (ends : ended.ip = stop) :
    after.frames = ended :: below ∧
      (∃ previous machine value, last = previous + 1 ∧
        start.reached previous = some machine ∧
        machine.Concludes frame below stop value ∧
        ended.stack = value :: frame.stack) ∧
      after.handlers = before.handlers ∧ frame.Continues ended := by
  obtain ⟨origin, older, sound⟩ := started.sound_reached attempting.reaches
  have late := attempting.late sound reaches live ends
  obtain ⟨last, rfl⟩ : ∃ previous, last = previous + 1 := ⟨last - 1, by omega⟩
  obtain ⟨machine, instruction, steps⟩ := started.steps reaches
  obtain ⟨newer, current, handler, machineSound, underWay, depth, target⟩ :=
    attempting.underWay started sound (by omega) (Nat.lt_succ_self last)
      steps.reaches
  obtain ⟨rfl, rfl⟩ := List.cons.inj (attempting.frames.symm.trans sound.frames)
  rw [List.length_map] at live
  obtain ⟨later, laterSound, change⟩ := steps.change machineSound (by simp)
  obtain ⟨onward, kept, rfl, moves⟩ := change.persists machineSound.stacked
    (by rw [← laterSound.length_frames]; exact live.lt)
  cases laterSound.frameAt.1 live
  obtain ⟨_, fits⟩ := machineSound.stacked.fits
  obtain ⟨rfl, own, value, stack⟩ :=
    underWay.finish fits moves laterSound.stacked depth
    (fun other member => target ▸ sound.stacked.1.unregistered
      attempting.attempt member)
    (ends.trans target.symm)
  have continues := underWay.continues.trans moves.continues
  have fewer : kept.own.length < current.own.length := by
    obtain ⟨front, ownEq⟩ := underWay.own
    rw [own, ownEq, List.length_append, List.length_cons]
    omega
  refine ⟨laterSound.frames, ⟨last, machine, value, rfl, steps.reaches,
    machineSound.concludes steps.executes steps.steps change laterSound fewer
    stack ends, stack⟩,
    ?_, continues⟩
  rw [laterSound.handlers, sound.handlers, List.nil_append, inForce_cons,
    inForce_cons, own]
  simp only [Activation.hidden, continues.link]

/-- Attempts complete cleanly in every run of a compiled script, and every
handler that the code of a live call registers belongs to an attempt. When
control reaches the end of an attempt in the call that began it, whether its
body completed or a handler returned without resuming, that call is the newest
one, its operand stack has one more value than when the attempt began, which is
the one that the body has left on top of it or the one that the handler returns,
its slots hold the same boxes, the calls below it are unchanged, and the same
handlers are in force. -/
theorem attempt_completes_cleanly (started : Started start) :
    (∀ count machine frame, start.reached count = some machine →
      frame ∈ machine.frames →
      ∀ registering ∈ (Instruction.walk frame.template.code).instructions,
        registering.opcode = .setHandler →
        ∃ first, first < registering.offset ∧
          frame.template.IsAttempt first registering.attemptEnd) ∧
    ∀ first last before frame below stop after ended,
      Attempting start first last before frame below stop →
      start.reached last = some after → after.FrameAt below.length ended →
      ended.ip = stop →
      after.frames = ended :: below ∧
        (∃ previous machine value, last = previous + 1 ∧
          start.reached previous = some machine ∧
          machine.Concludes frame below stop value ∧
          ended.stack = value :: frame.stack) ∧
        after.handlers = before.handlers ∧ frame.Continues ended := by
  constructor
  · intro count machine frame reaches member registering held operation
    obtain ⟨activation, older, sound⟩ := started.sound_reached reaches
    rw [sound.frames] at member
    obtain ⟨other, among, rfl⟩ := List.mem_map.1 member
    obtain ⟨newer, others, parts⟩ := List.append_of_mem among
    obtain ⟨_, fits⟩ := (parts ▸ sound.stacked).fits
    exact fits.laidOut.exists_isAttempt held operation
  · intro first last before frame below stop after ended attempting
      reaches live ends
    exact attempting.completes started reaches live ends

/-- The attempt in a sum completes cleanly when its handler abandons its
body. -/
theorem attempt_in_sum_completes_cleanly :
    ∃ start before frame after ended, Started start ∧
      Attempting start 1 9 before frame [] 17 ∧
      start.reached 9 = some after ∧ after.FrameAt 0 ended ∧ ended.ip = 17 ∧
      after.frames = [ended] ∧
      (∃ machine value, start.reached 8 = some machine ∧
        machine.Concludes frame [] 17 value ∧
        ended.stack = value :: frame.stack) ∧
      after.handlers = before.handlers ∧ frame.Continues ended := by
  obtain ⟨start, started, checked⟩ := @exists_started .standard
    "1 + try { 10 + do e(2) } handle e(x) { 100 }"
    (fun start => decide (
      (start.reached 1).map (fun before => before.frames.map fun frame =>
        decide (frame.template.IsAttempt frame.ip 17)) = some [true] ∧
      ([2, 3, 4, 5, 6, 7, 8].all fun count => (start.reached count).any
          fun during =>
        during.frames.getLast?.any (·.ip < 17)) ∧
      (start.reached 9).map (fun after => after.frames.map (·.ip)) = some [17]))
    (by decide +kernel)
  simp only [decide_eq_true_eq, Option.map_eq_some_iff,
    List.map_eq_singleton_iff, List.all_eq_true, Option.any_eq_true] at checked
  obtain ⟨⟨before, reaches, frame, frames, attempt⟩, inside, after, reachesLast,
      ended, ends, stop⟩ := checked
  have attempting : Attempting start 1 9 before frame [] 17 := by
    refine ⟨reaches, frames, attempt, by omega, ?_⟩
    intro count during low high reachesCount
    obtain ⟨same, reachesSame, current, last, before⟩ :=
      inside count (by simp; omega)
    cases reachesCount.symm.trans reachesSame
    obtain ⟨newer, parts⟩ := List.getLast?_eq_some_iff.1 last
    exact ⟨current, ⟨newer, [], parts, rfl⟩, before⟩
  have live : after.FrameAt 0 ended := ⟨[], [], ends, rfl⟩
  obtain ⟨framesEq, ⟨previous, machine, value, order, reachesPrevious,
    concludes, stack⟩, handlers, continues⟩ :=
      (attempt_completes_cleanly started).2 1 9 before frame
      [] 17 after ended attempting reachesLast live stop
  obtain rfl : previous = 8 := by omega
  exact ⟨start, before, frame, after, ended, started, attempting, reachesLast,
    live, stop, framesEq, ⟨machine, value, reachesPrevious, concludes, stack⟩,
    handlers, continues⟩

end Machine

end EffectScript
