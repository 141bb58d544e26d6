import EffectScript.Proofs.Origin

/-!
# Limits

Whatever code a machine runs, it stays within its limits. Frames are opened in
one place, and values come on an operand stack in one place; both look at the
limit first. A frame never gets or loses slots.

Nothing is known about the code here: it need not be what the compiler makes,
its operands may refer to nothing, and its jumps may lead into the middle of an
instruction. So the module follows the *builds* of the frames only, that is
their functions and their counts of slots. An operation leaves the builds alone,
unwinds some of them, or puts one new build on top of them.
-/

namespace EffectScript

/-- How many slots a frame of the function has when it is called with so many
arguments. -/
def Template.slotCount (template : Template) (arguments : Nat) : Nat :=
  max template.locals (arguments + 1)

/-- What stays as it is in a frame: its function and its count of slots. -/
def Frame.build (frame : Frame) : Closure × Nat :=
  (frame.closure, frame.slots.length)

namespace Frame

variable {frame popped stored : Frame} {value : Value}

/-- A popped frame has the same build and one value less on its operand
stack. -/
theorem pop_build (pops : frame.pop = .ok (value, popped)) :
    popped.build = frame.build ∧ popped.stack.length ≤ frame.stack.length := by
  unfold Frame.pop at pops
  split at pops
  · cases pops
  next stackEq =>
    cases pops
    exact ⟨rfl, by simp [stackEq]⟩

theorem setSlot_build {slot : UInt8}
    (stores : frame.setSlot slot value = .ok stored) :
    stored.build = frame.build ∧ stored.stack = frame.stack := by
  unfold Frame.setSlot at stores
  split at stores
  · cases stores
    exact ⟨by simp [Frame.build], rfl⟩
  · cases stores

end Frame

namespace Machine

/-- The builds of the frames, the newest one first. -/
def builds (machine : Machine) : List (Closure × Nat) :=
  machine.frames.map Frame.build

/-- All operand stacks are within the limit. -/
def Fits (machine : Machine) : Prop :=
  ∀ frame ∈ machine.frames, frame.stack.length ≤ machine.limits.stackCapacity

/-- The machine has neither too many frames nor too many values on an operand
stack. -/
structure WithinLimits (machine : Machine) : Prop where
  frames : machine.frames.length ≤ machine.limits.maxFrames
  operands : machine.Fits

/-- An operation that works on operand stacks only. -/
structure Retains (machine after : Machine) : Prop where
  limits : after.limits = machine.limits
  builds : after.builds = machine.builds
  fits : machine.Fits → after.Fits

/-- What an instruction does to the frames. It may unwind some of them, or it
opens one on top of them if there is room. -/
structure Advances (machine after : Machine) : Prop where
  limits : after.limits = machine.limits
  builds : after.builds <:+ machine.builds ∨
    machine.builds.length < machine.limits.maxFrames ∧ ∃ callee : Closure,
      after.builds =
        (callee, callee.template.slotCount callee.template.arity) ::
          machine.builds
  fits : machine.Fits → after.Fits

variable {machine middle after : Machine} {frame changed : Frame}
    {below : List Frame}

theorem length_builds (machine : Machine) :
    machine.builds.length = machine.frames.length :=
  List.length_map _

namespace Retains

theorem refl (machine : Machine) : machine.Retains machine :=
  ⟨rfl, rfl, id⟩

theorem trans (first : machine.Retains middle) (second : middle.Retains after) :
    machine.Retains after :=
  ⟨second.limits.trans first.limits, second.builds.trans first.builds,
    second.fits ∘ first.fits⟩

theorem advances (retains : machine.Retains after) : machine.Advances after :=
  ⟨retains.limits, .inl (retains.builds ▸ List.suffix_refl _), retains.fits⟩

/-- What an operation does behind one that works on operand stacks only. -/
theorem andThen
    (first : machine.Retains middle)
    (second : middle.Advances after) :
    machine.Advances after :=
  ⟨second.limits.trans first.limits, first.limits ▸ first.builds ▸
    second.builds,
    second.fits ∘ first.fits⟩

/-- Frames and limits are not touched at all. -/
theorem of_frames
    (limits : after.limits = machine.limits)
    (frames : after.frames = machine.frames) :
    machine.Retains after := by
  refine ⟨limits, congrArg (List.map Frame.build) frames, fun fits => ?_⟩
  rw [Fits, limits, frames]
  exact fits

theorem take (machine : Machine) (count : Nat) :
    machine.Retains (machine.take count) :=
  of_frames rfl rfl

/-- The newest frame is replaced by one of the same build. -/
theorem of_newest
    (frames : machine.frames = frame :: below)
    (same : changed.build = frame.build)
    (fits : frame.stack.length ≤ machine.limits.stackCapacity →
      changed.stack.length ≤ machine.limits.stackCapacity) :
    machine.Retains { machine with frames := changed :: below } := by
  refine ⟨rfl, ?_, fun known => ?_⟩
  · unfold Machine.builds
    rw [frames, List.map_cons, List.map_cons, same]
  · unfold Fits at known
    rw [frames] at known
    obtain ⟨newest, others⟩ := List.forall_mem_cons.1 known
    exact List.forall_mem_cons.2 ⟨fits newest, others⟩

end Retains

/-- What an operation does before one that works on operand stacks only. -/
theorem Advances.andRetains
    (first : machine.Advances middle)
    (second : middle.Retains after) :
    machine.Advances after :=
  ⟨second.limits.trans first.limits, second.builds ▸ first.builds,
    second.fits ∘ first.fits⟩

/-- An operation that may unwind frames and then works on operand stacks
only. -/
def Unwinds (machine after : Machine) : Prop :=
  ∃ middle : Machine, middle.limits = machine.limits ∧
    middle.frames <:+ machine.frames ∧
    middle.Retains after

/-- Nothing has to be unwound. -/
theorem Retains.unwinds (retains : machine.Retains after) :
    machine.Unwinds after :=
  ⟨machine, rfl, List.suffix_refl _, retains⟩

namespace Unwinds

theorem advances (unwinds : machine.Unwinds after) :
    machine.Advances after := by
  obtain ⟨middle, limits, fewer, retains⟩ := unwinds
  refine ⟨retains.limits.trans limits,
    .inl (retains.builds ▸ fewer.map Frame.build), fun fits => ?_⟩
  refine retains.fits fun frame member => ?_
  rw [limits]
  exact fits frame (fewer.subset member)

/-- Frames were gone before. -/
theorem of_fewer
    (unwinds : middle.Unwinds after)
    (limits : middle.limits = machine.limits)
    (fewer : middle.frames <:+ machine.frames) :
    machine.Unwinds after := by
  obtain ⟨last, sameLimits, fewest, retains⟩ := unwinds
  exact ⟨last, sameLimits.trans limits, fewest.trans fewer, retains⟩

end Unwinds

theorem oldest_suffix {α : Type} (count : Nat) (entries : List α) :
    oldest count entries <:+ entries :=
  List.drop_suffix _ _

/-! ## Operand stacks -/

/-- The newest frame goes on with no more values on its operand stack than
before. -/
theorem Retains.setTop
    (frames : machine.frames = frame :: below)
    (changed : Frame)
    (same : changed.build = frame.build)
    (fewer : changed.stack.length ≤ frame.stack.length) :
    machine.Retains (machine.setTop changed) := by
  rw [setTop_eq frames]
  exact .of_newest frames same fun fits => Nat.le_trans fewer fits

namespace Retains

theorem push {value : Value} (pushed : machine.push value = .ok after) :
    machine.Retains after := by
  obtain ⟨frame, below, frames, room, rfl⟩ := push_inversion pushed
  exact .of_newest frames rfl fun _ => room

theorem pop {value : Value} (popped : machine.pop = .ok (value, after)) :
    machine.Retains after := by
  obtain ⟨frame, below, stack, frames, stackEq, rfl⟩ := pop_inversion popped
  exact .of_newest frames rfl fun fits => Nat.le_trans (by simp [stackEq]) fits

theorem loadHeap {instruction : Instruction}
    (loaded : machine.loadHeap instruction = .ok after) :
    machine.Retains after := by
  obtain ⟨cell, pushes⟩ := loadHeap_inversion loaded
  exact .push pushes

theorem storeHeap {instruction : Instruction}
    (stored : machine.storeHeap instruction = .ok after) :
    machine.Retains after := by
  obtain ⟨value, popped, cell, pops, rfl⟩ := storeHeap_inversion stored
  exact (Retains.pop pops).trans (.of_frames rfl rfl)

theorem makeClosure {index : UInt8}
    (made : machine.makeClosure index = .ok after) :
    machine.Retains after := by
  obtain ⟨_, _, _, _, _, _, _, _, pushes⟩ := makeClosure_inversion made
  exact (Retains.take machine 1).trans (.push pushes)

theorem setHandler {effect : String} {distance : Nat}
    (registered : machine.setHandler effect distance = .ok after) :
    machine.Retains after := by
  obtain ⟨_, _, _, _, pops, _, rfl⟩ := setHandler_inversion registered
  exact (Retains.pop pops).trans (.of_frames rfl rfl)

/-- Tying the newest frame to an effect leaves its build and its operand stack
alone. -/
theorem tie {link : EffectLink} (tied : machine.tie link = .ok after) :
    machine.Retains after := by
  obtain ⟨frame, below, frames, rfl⟩ := tie_inversion tied
  exact .of_newest frames rfl id

end Retains

end Machine

/-! ## Calls -/

theorem length_of_placeCaptures {owner : String}
    {captures : List (UInt8 × Nat)} {slots placed : List Value}
    (placedEq : placeCaptures owner captures slots = .ok placed) :
    placed.length = slots.length := by
  induction captures generalizing slots with
  | nil =>
      cases placedEq
      rfl
  | cons capture others inner =>
      simp only [placeCaptures] at placedEq
      split at placedEq
      · exact (inner placedEq).trans List.length_set
      · cases placedEq

theorem length_of_boxSlots {owner : String}
    {chosen : List UInt8} {slots boxed : List Value} {store after : Store}
    (boxedEq : boxSlots owner chosen slots store = .ok (boxed, after)) :
    boxed.length = slots.length := by
  induction chosen generalizing slots store with
  | nil =>
      cases boxedEq
      rfl
  | cons slot others inner =>
      simp only [boxSlots] at boxedEq
      split at boxedEq
      · exact (inner boxedEq).trans List.length_set
      · cases boxedEq

theorem Closure.length_initialSlots
    (closure : Closure) (arguments : List Value) :
    (closure.initialSlots arguments).length =
      closure.template.slotCount arguments.length := by
  simp only [Closure.initialSlots, Template.slotCount, List.length_append,
    List.length_cons, List.length_replicate]
  omega

namespace Machine

variable {machine after : Machine}

/-- A frame is opened only where the limit leaves room for it. -/
theorem openFrame_build {closure : Closure}
    {arguments : List Value}
    (opened : machine.openFrame closure arguments = .ok after) :
    after.limits = machine.limits ∧
    machine.frames.length < machine.limits.maxFrames ∧
      ∃ frame : Frame, frame.stack = [] ∧
        frame.build = (closure, closure.template.slotCount arguments.length) ∧
        after.frames = frame :: machine.frames := by
  obtain ⟨room, captured, slots, store, capturedEq, slotsEq, rfl⟩ :=
    openFrame_inversion opened
  refine ⟨rfl, room, _, rfl, ?_, rfl⟩
  rw [Frame.build, length_of_boxSlots slotsEq,
    length_of_placeCaptures capturedEq, closure.length_initialSlots]

/-- A native function opens no frames. It unwinds some if it resumes. -/
theorem native_frames {builtin : Builtin}
    {arguments : List Value} {result : Value}
    (calls : builtin.call machine arguments = .ok (result, after)) :
    after.limits = machine.limits ∧ after.frames <:+ machine.frames := by
  obtain ⟨_, spares | ⟨_, resumes⟩⟩ :=
    Builtin.call_kept .trivial (fun _ _ => trivial) calls
  · exact ⟨spares.limits, spares.frames ▸ List.suffix_refl _⟩
  · obtain ⟨link, _, rfl⟩ := resume_inversion resumes
    exact ⟨rfl, oldest_suffix _ _⟩

namespace Advances

theorem callValue {callee : Value} {arguments : List Value}
    (called : machine.callValue callee arguments = .ok after) :
    machine.Advances after := by
  rcases callValue_inversion called with ⟨closure, rfl, arity, opens⟩ |
    ⟨builtin, result, invoked, rfl, calls, pushes⟩
  · obtain ⟨limits, room, frame, empty, build, frames⟩ := openFrame_build opens
    refine ⟨limits, .inr ⟨machine.length_builds ▸ room, closure, ?_⟩,
      fun fits => ?_⟩
    · rw [← arity, ← build]
      exact congrArg (List.map Frame.build) frames
    · unfold Fits
      rw [frames, limits]
      exact List.forall_mem_cons.2 ⟨by simp [empty], fits⟩
  · obtain ⟨limits, fewer⟩ := native_frames calls
    exact Unwinds.advances ((Retains.push pushes).unwinds.of_fewer limits fewer)

theorem call {count : Nat} (called : machine.call count = .ok after) :
    machine.Advances after := by
  obtain ⟨frame, below, callee, rest, frames, parts, calls⟩ :=
    call_inversion called
  have fewer : rest.length ≤ frame.stack.length := by
    have := congrArg List.length parts
    simp only [List.length_drop, List.length_cons] at this
    omega
  have popped : machine.Retains
      { machine with frames := { frame with stack := rest } :: below } :=
    .of_newest frames rfl (Nat.le_trans fewer)
  exact popped.andThen (.callValue calls)

/-- Operators and effects work on operand stacks until they call something. -/
theorem carries (machine : Machine) :
    Carries (fun after _ => machine.Retains after) machine.Advances where
  pop retains popped := retains.trans (.pop popped)
  push retains pushed := retains.trans (.push pushed)
  landed retains := retains.advances
  call retains called := retains.andThen (.call called)
  scalar retains _ := retains
  binary retains _ := retains.trans (.take _ _)
  method retains _ := retains
  masked retains _ := retains.trans (.of_frames rfl rfl)
  tie _ _ _ advances tied := advances.andRetains (.tie tied)

end Advances

theorem Unwinds.abandon {link : EffectLink} {value : Value}
    (abandoned : machine.abandon link value = .ok after) :
    machine.Unwinds after := by
  obtain ⟨frame, below, kept, pushes⟩ := abandon_inversion abandoned
  let unwound : Machine := { machine with
    frames := oldest (link.handlerFrame + 1) machine.frames
    handlers := oldest link.groupStart machine.handlers }
  have completes : unwound.Retains { unwound with
      frames := { frame with stack := oldest link.depth frame.stack, ip :=
        link.target } :: below } :=
    .of_newest kept rfl (Nat.le_trans (by simp))
  exact (completes.trans (.push pushes)).unwinds.of_fewer rfl
    (oldest_suffix _ _)

end Machine

/-! ## Instructions -/

/-- The machine that an instruction leads to. -/
def Flow.machine : Flow → Machine
  | .onward machine | .finished _ machine => machine

/-- The machine that a step leads to. -/
def Step.machine : Step → Machine
  | .running machine | .finished _ machine | .failed _ machine => machine

namespace Machine

variable (machine : Machine)

theorem advances_returnValue {flow : Flow}
    (returned : machine.returnValue = .ok flow) :
    machine.Advances flow.machine := by
  obtain ⟨frame, below, value, frames, stack, result⟩ :=
    returnValue_inversion returned
  have fewer : machine.withoutNewest.frames <:+ machine.frames :=
    List.tail_suffix _
  rcases result with ⟨link, completed, abandons, rfl⟩ | rfl | ⟨pushed,
    pushes, rfl⟩
  · exact Unwinds.advances ((Unwinds.abandon abandons).of_fewer rfl fewer)
  · exact Unwinds.advances ((Retains.refl _).unwinds.of_fewer rfl fewer)
  · exact Unwinds.advances ((Retains.push pushes).unwinds.of_fewer rfl fewer)

theorem advances_execute {instruction : Instruction}
    {flow : Flow}
    (executed : machine.execute instruction = .ok flow) :
    machine.Advances flow.machine := by
  obtain ⟨frame, isTop, _⟩ := Outcome.bind_eq_ok.1 executed
  obtain ⟨below, frames⟩ := top_inversion isTop
  have pushing {value : Value} {after : Machine}
      (pushes : machine.push value = .ok after) :
      machine.Advances after := (Retains.push pushes).advances
  have replacing (changed : Frame) (same : changed.build = frame.build)
      (fewer : changed.stack.length ≤ frame.stack.length) :
      machine.Advances (machine.setTop changed) :=
        (Retains.setTop frames changed same fewer).advances
  cases execute_inversion frames executed with
  | constant operation found pushes => exact pushing pushes
  | simple plain pushes => exact pushing pushes
  | loadLocal operation reads pushes => exact pushing pushes
  | storeLocal operation pops stores =>
      obtain ⟨samePopped, fewer⟩ := Frame.pop_build pops
      obtain ⟨sameStored, stack⟩ := Frame.setSlot_build stores
      exact replacing _ (sameStored.trans samePopped) (stack ▸ fewer)
  | loadHeap loads => exact (Retains.loadHeap loads).advances
  | storeHeap stores => exact (Retains.storeHeap stores).advances
  | loadGlobal found pushes => exact pushing pushes
  | storeGlobal name pops =>
      exact Retains.advances ((Retains.pop pops).trans (.of_frames rfl rfl))
  | pop pops => exact (Retains.pop pops).advances
  | swap stack => exact replacing _ rfl (by simp [stack])
  | jump | loop => exact replacing _ rfl (Nat.le_refl _)
  | fallThrough pops | branch pops =>
      obtain ⟨same, fewer⟩ := Frame.pop_build pops
      exact replacing _ same fewer
  | call calls => exact .call calls
  | finish returns => exact machine.advances_returnValue returns
  | operator operates =>
      exact (Advances.carries machine).binaryOperator (.refl _) operates
  | invert pops pushes =>
      exact ((Retains.pop pops).trans (.push pushes)).advances
  | negate negates => exact (Advances.carries machine).negate (.refl _) negates
  | makeClosure makes => exact (Retains.makeClosure makes).advances
  | setHandler registers => exact (Retains.setHandler registers).advances
  | perform performs =>
      exact (Advances.carries machine).perform (.refl _) performs
  | popHandlers => exact Retains.advances (.of_frames rfl rfl)
  | comment => exact (Retains.refl machine).advances

/-- Whatever a step leads to, the machine has gone through one instruction at
most. -/
theorem step_advances : machine.Advances machine.step.machine := by
  have fails (failing : Machine) (failure : Failure) :
      failing.Unwinds (failing.fail failure).machine :=
    (Retains.refl failing.cleared).unwinds.of_fewer rfl (List.nil_suffix)
  unfold step
  split
  next failure _ => exact (fails machine failure).advances
  next instruction fetched fetches =>
    obtain ⟨frame, below, frames, _, rfl⟩ := fetch_inversion fetches
    have fetching : machine.Retains { machine with
        frames := { frame with ip := instruction.next } :: below } :=
          .of_newest frames rfl id
    split
    next next executed => exact fetching.andThen (advances_execute _ executed)
    next value final executed =>
      exact fetching.andThen (advances_execute _ executed)
    next failure _ => exact fetching.andThen (fails _ failure).advances

/-! ## Steps and runs -/

variable {machine} {script : Template} {start later : Machine} {count : Nat}

/-- A machine without frames has nothing to go on with. -/
theorem step_of_no_frames (none : machine.frames = []) :
    machine.step.machine.frames = [] := by
  have fetches : machine.fetch = .error (.fault (.corrupt .noActiveFrame)) := by
    simp [fetch, top, none]
  unfold step
  rw [fetches]
  rfl

/-- With how many arguments the frame at a place was called: the oldest frame
runs the script, and all other frames were opened by calls. -/
def argumentCount (template : Template) (older : Nat) : Nat :=
  if older = 0 then 0 else template.arity

/-- A machine that runs a script stays within its limits, and each frame has as
many slots as it was created with. -/
structure Confined (script : Template) (machine : Machine) : Prop where
  within : machine.WithinLimits
  measured : ∀ build older, build :: older <:+ machine.builds →
    (older = [] → build.1.template = script) ∧
    build.2 =
      build.1.template.slotCount (argumentCount build.1.template older.length)

theorem Confined.advance
    (confined : machine.Confined script)
    (advances : machine.Advances after)
    (live : machine.frames ≠ []) :
    after.Confined script := by
  refine ⟨⟨?_, advances.fits confined.within.operands⟩,
    fun build older suffix => ?_⟩
  · rw [← length_builds, advances.limits]
    have few := confined.within.frames
    rcases advances.builds with fewer | ⟨room, callee, opened⟩
    · have := fewer.length_le
      rw [length_builds machine] at this
      omega
    · rw [opened, List.length_cons]
      exact room
  · rcases advances.builds with fewer | ⟨room, callee, opened⟩
    · exact confined.measured build older (suffix.trans fewer)
    · rw [opened] at suffix
      rcases List.suffix_cons_iff.1 suffix with whole | old
      · cases whole
        have some : machine.builds ≠ [] :=
          fun none => live (List.map_eq_nil_iff.1 none)
        have called : machine.builds.length ≠ 0 :=
          fun none => some (List.length_eq_zero_iff.1 none)
        exact ⟨fun none => absurd none some, by
          rw [argumentCount, if_neg called]⟩
      · exact confined.measured build older old

theorem Confined.step (confined : machine.Confined script) :
    machine.step.machine.Confined script ∧
    machine.step.machine.limits = machine.limits := by
  refine ⟨?_, machine.step_advances.limits⟩
  by_cases live : machine.frames = []
  · have gone := step_of_no_frames live
    refine ⟨⟨by simp [gone], by simp [Fits, gone]⟩,
      fun build older suffix => ?_⟩
    simp [builds, gone] at suffix
  · exact confined.advance machine.step_advances live

theorem confined_load (loads : machine.load script = .running start) :
    start.Confined script ∧ start.limits = machine.limits := by
  obtain ⟨limits, room, frame, empty, build, frames⟩ :=
    openFrame_build (load_inversion loads)
  have limitsEq : start.limits = machine.limits := limits
  have framesEq : start.frames = [frame] := frames
  refine ⟨⟨⟨?_, ?_⟩, fun other older suffix => ?_⟩, limitsEq⟩
  · rw [framesEq, limitsEq]
    exact room
  · rw [Fits, framesEq]
    simp [empty]
  · have one : start.builds =
        [(⟨machine.store.unused, script, []⟩, script.slotCount 0)] := by
      rw [builds, framesEq, List.map_singleton, build]
      rfl
    rw [one, List.suffix_cons_iff, List.suffix_nil] at suffix
    rcases suffix with whole | nothing
    · cases whole
      exact ⟨fun _ => rfl, rfl⟩
    · cases nothing

theorem Confined.reached
    (confined : start.Confined script)
    (reaches : start.reached count = some later) :
    later.Confined script ∧ later.limits = start.limits := by
  refine reached_induction
    (fun later => later.Confined script ∧ later.limits = start.limits)
    ⟨confined, rfl⟩ ?_ reaches
  rintro _ before next _ ⟨confinedBefore, limitsBefore⟩ steps
  obtain ⟨confinedAfter, limitsAfter⟩ := confinedBefore.step
  rw [steps] at confinedAfter limitsAfter
  exact ⟨confinedAfter, limitsAfter.trans limitsBefore⟩

/-- A frame that is there before and after a step has kept its build. -/
theorem Advances.build_eq
    (advances : machine.Advances after)
    {index : Nat}
    (live : machine.frames.reverse[index]? = some frame)
    (liveAfter : after.frames.reverse[index]? = some changed) :
    changed.build = frame.build := by
  have before : machine.builds.reverse[index]? = some frame.build := by
    rw [Machine.builds, ← List.map_reverse, List.getElem?_map, live]
    rfl
  have behind : after.builds.reverse[index]? = some changed.build := by
    rw [Machine.builds, ← List.map_reverse, List.getElem?_map, liveAfter]
    rfl
  rcases advances.builds with ⟨gone, parts⟩ | ⟨_, callee, opened⟩
  · rw [← parts, List.reverse_append,
      List.getElem?_append_left (List.getElem?_eq_some_iff.1 behind).1, behind]
        at before
    exact Option.some.inj before
  · rw [opened, List.reverse_cons,
      List.getElem?_append_left (List.getElem?_eq_some_iff.1 before).1, before]
        at behind
    exact (Option.some.inj behind).symm

/-- A frame that stays for a number of steps keeps its build. -/
theorem build_eq_of_reached {more index : Nat}
    (live : start.frames.reverse[index]? = some frame)
    (stays : ∀ steps ≤ more, ∀ between, start.reached steps = some between →
      index < between.frames.length)
    (reaches : start.reached more = some later)
    (liveLater : later.frames.reverse[index]? = some changed) :
    changed.build = frame.build := by
  induction more generalizing later changed with
  | zero =>
      cases reaches
      cases live.symm.trans liveLater
      rfl
  | succ more inner =>
      obtain ⟨before, reachesBefore, steps⟩ := reached_succ.1 reaches
      have inside : index < before.frames.reverse.length := by
        rw [List.length_reverse]
        exact stays more (Nat.le_succ more) before reachesBefore
      have same := inner (fun steps few => stays steps (Nat.le_succ_of_le few))
        reachesBefore (List.getElem?_eq_getElem inside)
      have advances := before.step_advances
      rw [steps] at advances
      exact (advances.build_eq (List.getElem?_eq_getElem inside)
        liveLater).trans same

/-- Limits hold for any code, on any machine. In every state of a run, and in
the one that it ends with, there are no more frames and no more values on an
operand stack than the limits allow. Each frame has the slots that its function
and its arguments ask for, and as long as it lives it has the same number of
them. -/
theorem limits_hold_for_any_code
    (loads : machine.load script = .running start)
    (reaches : start.reached count = some later) :
    (later.limits = machine.limits ∧ later.WithinLimits) ∧
    (later.step.machine.limits = machine.limits ∧
      later.step.machine.WithinLimits) ∧
    (∀ index frame, later.frames[index]? = some frame →
      (index + 1 = later.frames.length → frame.template = script) ∧
      frame.slots.length = max frame.template.locals
        ((if index + 1 = later.frames.length then 0 else frame.template.arity) +
          1)) ∧
    ∀ index frame, later.frames.reverse[index]? = some frame →
      ∀ more last changed,
      later.reached more = some last →
      (∀ steps ≤ more, ∀ between, later.reached steps = some between →
        index < between.frames.length) →
      last.frames.reverse[index]? = some changed →
      changed.closure = frame.closure ∧
      changed.slots.length = frame.slots.length := by
  obtain ⟨started, startLimits⟩ := confined_load loads
  obtain ⟨confined, sameLimits⟩ := started.reached reaches
  have limits := sameLimits.trans startLimits
  obtain ⟨confinedAfter, limitsAfter⟩ := confined.step
  refine ⟨⟨limits, confined.within⟩,
    ⟨limitsAfter.trans limits, confinedAfter.within⟩, ?_, ?_⟩
  · intro index frame live
    obtain ⟨inside, frameEq⟩ := List.getElem?_eq_some_iff.1 live
    have suffix : frame.build :: (later.frames.drop (index + 1)).map
        Frame.build <:+ later.builds := by
      rw [← List.map_cons, ← frameEq, ← List.drop_eq_getElem_cons inside]
      exact (List.drop_suffix _ _).map _
    obtain ⟨runs, size⟩ := confined.measured _ _ suffix
    have last : (List.drop (index + 1) later.frames).length = 0 ↔
        index + 1 = later.frames.length := by
      rw [List.length_drop]
      omega
    rw [argumentCount, List.length_map] at size
    simp only [last] at size
    exact ⟨fun oldest =>
      runs
      (by rw [List.map_eq_nil_iff, ← List.length_eq_zero_iff];
          exact last.2 oldest),
      size⟩
  · intro index frame live more last changed reachesLast stays liveLast
    exact Prod.mk.inj (build_eq_of_reached live stays reachesLast liveLast)

/-- A function that calls itself without end fills the frames and leaves the
operand stacks at their limit. -/
theorem limits_hold_for_endless_recursion :
    ∃ (script : Template) (machine start later : Machine),
      machine.load script = .running start ∧
      start.reached 3 = some later ∧
      later.frames.length = later.limits.maxFrames ∧
      (∃ newest ∈ later.frames,
        newest.stack.length = later.limits.stackCapacity ∧
        newest.slots.length = 1) ∧ later.WithinLimits ∧
        later.step.machine.WithinLimits := by
  let script : Template :=
    ⟨"f", 0, 0, #[Opcode.loadLocal.toByte, 0, Opcode.call.toByte, 0],
      [], [], {}, [],
    [], []⟩
  let machine := fresh ⟨2, 1⟩ (.collecting "")
  obtain ⟨⟨_, within⟩, ⟨_, withinAfter⟩, _⟩ :=
    @limits_hold_for_any_code machine script _ _ 3 rfl rfl
  exact ⟨script, machine, _, _, rfl, rfl, rfl,
    ⟨_, List.mem_cons_self, rfl, rfl⟩, within, withinAfter⟩

end Machine

end EffectScript
