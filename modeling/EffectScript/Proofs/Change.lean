import EffectScript.Machine.Step
import EffectScript.Proofs.Activation

/-!
# What a step changes

`Change` lists all ways in which a step of a sound machine changes the
activations. Whatever is said about runs rests on this list.

An operation runs *safely* when it succeeds with a result of a given kind or
fails in one of the ways in which compiled code may fail.
-/

namespace EffectScript

open Activation

/-! ## Changes -/

namespace Instruction

/-- How many values an instruction that can suspend its frame takes off the
operand stack: the callee with its arguments, the operands, or the payload. -/
def taken (instruction : Instruction) : Nat :=
  match instruction.opcode with
  | .call => instruction.byte.toNat + 1
  | .add | .sub | .mul | .div | .eq | .lt | .gt => 2
  | .neg | .perform => 1
  | _ => 0

end Instruction

namespace Frame

/-- A later state of the same call: the function, the boxes and the answered
effect are the same. -/
structure Continues (frame later : Frame) : Prop where
  closure : later.closure = frame.closure
  link : later.link = frame.link
  boxes : ∀ slot ∈ frame.template.heapSlots,
    later.slots[slot.toNat]? = frame.slots[slot.toNat]?

/-- The frame while it waits for the result of an instruction. -/
def suspended (frame : Frame) (instruction : Instruction) : Frame :=
  { frame with ip := instruction.next, stack :=
    frame.stack.drop instruction.taken }

/-- The frame after it is given a value. -/
def given (frame : Frame) (value : Value) : Frame :=
  { frame with stack := value :: frame.stack }

end Frame

/-- The ways in which an instruction of the newest activation changes the
activations. -/
inductive Change (instruction : Instruction) :
    List (Activation Handler) → List (Activation Handler) → Prop
  | works {activation : Activation Handler} {older : List (Activation Handler)}
      {frame : Frame}
      {shape : Shape} (continues : activation.frame.Continues frame)
      (active : shape.active = activation.shape.active)
      (stack : ∃ count values, count ≤ activation.shape.height ∧
        frame.stack = values ++ activation.frame.stack.drop count) :
      Change instruction (activation :: older)
        ({ activation with frame := frame, shape := shape } :: older)
  | registers {activation : Activation Handler}
      {older : List (Activation Handler)} {frame : Frame}
      {shape : Shape} {registration : Registration} {handler : Handler}
        {closure : Value}
      (operation : instruction.opcode = .setHandler)
        (continues : activation.frame.Continues frame)
      (active : shape.active = registration :: activation.shape.active)
      (site : registration.site = instruction.offset)
      (target : registration.target = instruction.next +
        instruction.trailingShort)
      (stack : activation.frame.stack = closure :: frame.stack)
      (floor : shape.floor = frame.stack.length) :
      Change instruction (activation :: older)
        ({ activation with frame := frame, shape := shape, own :=
          handler :: activation.own } :: older)
  | completes {activation : Activation Handler}
      {older : List (Activation Handler)} {frame : Frame}
      {shape : Shape} {group kept : List Handler}
        (operation : instruction.opcode = .popHandlers)
      (continues : activation.frame.Continues frame)
        (own : activation.own = group ++ kept)
      (ends : ∀ handler ∈ group, handler.target = frame.ip)
      (stack : frame.stack = activation.frame.stack) :
      Change instruction (activation :: older)
        ({ activation with frame := frame, shape := shape, own := kept } ::
          older)
  | opens {activation callee : Activation Handler}
      {older : List (Activation Handler)}
      {shape : Shape} (active : shape.active = activation.shape.active)
      (enough : instruction.taken ≤ activation.shape.height)
        (fresh : callee.own = [])
      (linked : callee.frame.link ≠ none ↔ instruction.opcode = .perform) :
      Change instruction (activation :: older)
        (callee ::
          { activation with frame :=
            activation.frame.suspended instruction, shape := shape } :: older)
  | returns {callee activation : Activation Handler}
      {older : List (Activation Handler)}
      {value : Value} (operation : instruction.opcode = .return)
      (unlinked : callee.frame.link = none) (done : callee.own = []) :
      Change instruction (callee :: activation :: older)
        ({ activation with frame := activation.frame.given value } :: older)
  | abandons {callee activation : Activation Handler}
      {above older : List (Activation Handler)}
      {link : EffectLink} {handler : Handler} {staying cut kept : List Handler}
        {shape : Shape}
      {value : Value} (operation : instruction.opcode = .return)
      (linked : callee.frame.link = some link) (done : callee.own = [])
      (owns : activation.Owns older handler staying cut kept shape)
      (owner : link.handlerFrame = older.length)
        (target : link.target = handler.target)
      (returned : callee.frame.stack = [value]) :
      Change instruction (callee :: (above ++ activation :: older))
        (activation.completed handler value shape kept :: older)
  | resumes {callee activation : Activation Handler}
      {above older : List (Activation Handler)}
      {link : EffectLink} {value : Value}
        (operation : instruction.opcode ≠ .return)
      (unlinked : ∀ other ∈ above, other.frame.link = none)
      (linked : callee.frame.link = some link) :
      Change instruction (above ++ callee :: activation :: older)
        ({ activation with frame := activation.frame.given value } :: older)

/-! ## Failures -/

/-- A failure that compiled code may run into: an exception, an effect that
nobody handles, or a limit of the machine. -/
def Failure.Expected : Failure → Prop
  | .exception _ => True
  | .unhandled _ _ => True
  | .fault (.frameOverflow _) => True
  | .fault (.stackOverflow _) => True
  | .fault _ => False

/-- A fault that compiled code may run into is an overflow. -/
theorem Failure.Expected.overflow {fault : Fault}
    (expected : (Failure.fault fault).Expected) :
    (∃ limit, fault = .frameOverflow limit) ∨
      ∃ limit, fault = .stackOverflow limit := by
  cases fault with
  | frameOverflow limit => exact .inl ⟨limit, rfl⟩
  | stackOverflow limit => exact .inr ⟨limit, rfl⟩
  | _ => exact expected.elim

/-- The computation succeeds with a good result, or it fails as expected. -/
def Safely {α : Type} (good : α → Prop) : Except Failure α → Prop
  | .ok result => good result
  | .error failure => failure.Expected

theorem Safely.bind {α β : Type} {good : α → Prop}
    {better : β → Prop} {first : Except Failure α}
    {second : α → Except Failure β}
    (early : Safely good first)
    (late : ∀ result, good result → Safely better (second result)) :
    Safely better (first >>= second) := by
  cases first with
  | ok result => exact late result early
  | error failure => exact early

namespace Machine

variable {machine : Machine} {frame : Frame} {frames : List Frame}
    {value : Value} {stack : List Value} {good : Machine → Prop}

/-! ## The operand stack -/

theorem top_eq (framesEq : machine.frames = frame :: frames) :
    machine.top = .ok frame := by
  simp [top, framesEq]

theorem setTop_eq
    (framesEq : machine.frames = frame :: frames)
    (other : Frame) :
    machine.setTop other = { machine with frames := other :: frames } := by
  simp [setTop, framesEq]

/-- Pushing gives the newest frame a value or finds its operand stack full. -/
theorem push_safely
    (framesEq : machine.frames = frame :: frames)
    (pushed : good { machine with frames := frame.given value :: frames }) :
    Safely good (machine.push value) := by
  unfold Machine.push
  rw [top_eq framesEq]
  by_cases room : frame.stack.length < machine.limits.stackCapacity
  · simp only [Outcome.ok_bind, Frame.push, room, if_true, setTop_eq framesEq]
    exact pushed
  · simp only [Outcome.ok_bind, Frame.push, room, if_false]
    trivial

theorem pop_eq
    (framesEq : machine.frames = frame :: frames)
    (stackEq : frame.stack = value :: stack) :
    machine.pop = .ok
      (value, { machine with frames :=
        { frame with stack := stack } :: frames }) := by
  unfold Machine.pop
  rw [top_eq framesEq]
  simp only [Outcome.ok_bind, Frame.pop, stackEq, setTop_eq framesEq]
  rfl

end Machine

/-! ## New frames -/

/-- The slot holds a box. -/
def Boxed (slots : List Value) (slot : UInt8) : Prop :=
  ∃ cell, slots[slot.toNat]? = some (.box cell)

theorem Boxed.set {slots : List Value} {slot : UInt8}
    (boxed : Boxed slots slot) (index cell : Nat) :
    Boxed (slots.set index (.box cell)) slot := by
  obtain ⟨held, present⟩ := boxed
  by_cases same : index = slot.toNat
  · subst same
    have inside : slot.toNat < slots.length :=
      (List.getElem?_eq_some_iff.1 present).1
    exact ⟨cell, by simp [inside]⟩
  · exact ⟨held, by rw [List.getElem?_set_ne same, present]⟩

theorem boxed_set {slots : List Value} {slot : UInt8}
    (inside : slot.toNat < slots.length)
    (cell : Nat) :
    Boxed (slots.set slot.toNat (.box cell)) slot :=
  ⟨cell, by simp [inside]⟩

theorem forall_sound_set {slots : List Value}
    (sound : ∀ value ∈ slots, value.Sound)
    (index : Nat)
    {value : Value}
    (valueSound : value.Sound) :
    ∀ held ∈ slots.set index value, held.Sound := by
  intro held member
  rcases List.mem_or_eq_of_mem_set member with old | rfl
  · exact sound held old
  · exact valueSound

/-- Captured boxes are placed into slots that are there. -/
theorem placeCaptures_spec {owner : String}
    {captures : List (UInt8 × Nat)} {slots : List Value}
    (inside : ∀ capture ∈ captures, capture.1.toNat < slots.length)
    (sound : ∀ value ∈ slots, value.Sound) :
    ∃ placed, placeCaptures owner captures slots = .ok placed ∧
      placed.length = slots.length ∧
      (∀ value ∈ placed, value.Sound) ∧
        (∀ slot, Boxed slots slot → Boxed placed slot) ∧
      ∀ capture ∈ captures, Boxed placed capture.1 := by
  induction captures generalizing slots with
  | nil => exact ⟨slots, rfl, rfl, sound, fun _ boxed => boxed, by simp⟩
  | cons capture others inner =>
      obtain ⟨slot, cell⟩ := capture
      have present : slot.toNat < slots.length :=
        inside (slot, cell) List.mem_cons_self
      obtain ⟨placed, placedEq, count, placedSound, kept, filled⟩ :=
        @inner (slots.set slot.toNat (.box cell))
          (fun other member => by
            simpa using inside other (List.mem_cons_of_mem _ member))
          (forall_sound_set sound _ (.box cell))
      refine ⟨placed, ?_, by simpa using count, placedSound,
        fun other boxed => kept other (boxed.set _ _), ?_⟩
      · simp only [placeCaptures, present, if_true, placedEq]
      · intro other member
        rcases List.mem_cons.1 member with rfl | later
        · exact kept slot (boxed_set present cell)
        · exact filled other later

/-- The values of slots that are there are moved into boxes. -/
theorem boxSlots_spec {owner : String} {chosen : List UInt8}
    {slots : List Value} {store : Store}
    (inside : ∀ slot ∈ chosen, slot.toNat < slots.length)
    (sound : ∀ value ∈ slots, value.Sound)
    (cells : ∀ value ∈ store.cells, value.Sound) :
    ∃ placed after, boxSlots owner chosen slots store = .ok (placed, after) ∧
      placed.length = slots.length ∧ (∀ value ∈ placed, value.Sound) ∧
      (∀ value ∈ after.cells, value.Sound) ∧
        (∀ slot, Boxed slots slot → Boxed placed slot) ∧
      ∀ slot ∈ chosen, Boxed placed slot := by
  induction chosen generalizing slots store with
  | nil => exact ⟨slots, store, rfl, rfl, sound, cells, fun _ boxed =>
      boxed, by simp⟩
  | cons slot others inner =>
      have present : slot.toNat < slots.length := inside slot List.mem_cons_self
      have contentSound : slots[slot.toNat].Sound :=
        sound _ (List.getElem_mem present)
      obtain ⟨placed, after, placedEq, count, placedSound, afterCells,
          kept, filled⟩ :=
        @inner (slots.set slot.toNat (.box store.cells.size))
          (store.newBox slots[slot.toNat]).2
          (fun other member => by
            simpa using inside other (List.mem_cons_of_mem _ member))
          (forall_sound_set sound _ (.box _))
          (by
            intro value member
            rcases Array.mem_push.1 member with old | rfl
            · exact cells value old
            · exact contentSound)
      refine ⟨placed, after, ?_, by simpa using count, placedSound, afterCells,
        fun other boxed => kept other (boxed.set _ _), ?_⟩
      · simp only [boxSlots, List.getElem?_eq_getElem present]
        exact placedEq
      · intro other member
        rcases List.mem_cons.1 member with rfl | later
        · exact kept other (boxed_set present _)
        · exact filled other later

/-- The activation has just been opened for a closure. -/
structure Activation.Opened (callee : Activation Handler) (closure : Closure) :
    Prop where
  closure : callee.frame.closure = closure
  link : callee.frame.link = none
  own : callee.own = []
  fits : ∀ index, callee.Fits index 0

namespace Machine

/-- Opening a frame for a sound closure adds an activation, unless there are too
many frames. -/
theorem openFrame_safely {machine : Machine}
    {closure : Closure} {arguments : List Value} {good : Machine → Prop}
    (surrounded : machine.Surrounded)
    (closureSound : closure.Sound)
    (argumentsSound : ∀ value ∈ arguments, value.Sound)
    (arity : arguments.length = closure.template.arity)
    (opened : ∀ callee store, Activation.Opened callee closure →
      ({ machine with store := store } : Machine).Surrounded →
      good { machine with frames :=
        callee.frame :: machine.frames, store := store }) :
    Safely good (machine.openFrame closure arguments) := by
  cases closureSound.template with
  | intro code laidOut _ _ =>
  have fewArguments := laidOut.arity
  have count : (closure.initialSlots arguments).length =
      closure.template.locals := by
    simp only [Closure.initialSlots, List.length_append, List.length_cons,
      List.length_replicate]
    omega
  have initialSound : ∀ value ∈ closure.initialSlots arguments,
      value.Sound := by
    intro value member
    rcases List.mem_append.1 member with given | unset
    · rcases List.mem_cons.1 given with rfl | argument
      · exact .closure closureSound
      · exact argumentsSound value argument
    · rw [List.eq_of_mem_replicate unset]
      exact .nil
  obtain ⟨captured, capturedEq, capturedCount, capturedSound, _,
      capturedBoxes⟩ :=
    @placeCaptures_spec closure.template.name
      (closure.template.capturesInner.zip closure.boxes)
      (closure.initialSlots arguments)
      (by
        intro capture member
        rw [count]
        exact laidOut.heap _ (laidOut.captured _ (List.of_mem_zip member).1))
      initialSound
  obtain ⟨slots, store, slotsEq, slotsCount, slotsSound, cellsSound, kept,
      ownBoxes⟩ :=
    @boxSlots_spec closure.template.name
      (closure.template.heapSlots.filter fun slot =>
        !closure.template.capturesInner.contains slot)
      captured machine.store
      (by
        intro slot member
        rw [capturedCount, count]
        exact laidOut.heap slot (List.mem_filter.1 member).1)
      capturedSound surrounded.cells
  unfold Machine.openFrame
  split
  · simp only [capturedEq, Outcome.ok_bind, slotsEq]
    refine opened ⟨⟨closure, [], slots, 0, none⟩, code, .initial, []⟩ store
      ⟨rfl, rfl, rfl, fun index => ?_⟩
        ⟨surrounded.globals, surrounded.methods, cellsSound⟩
    refine ⟨closureSound, laidOut, laidOut.start, rfl, Nat.zero_le _, by
      rintro _ ⟨⟩, .nil,
      (slotsCount.trans capturedCount).trans count, ?_, by simp, slotsSound⟩
    intro slot heap
    by_cases inner : slot ∈ closure.template.capturesInner
    · -- A captured slot has its box from the closure.
      obtain ⟨index, place, rfl⟩ := List.mem_iff_getElem.1 inner
      have given : index < closure.boxes.length := closureSound.boxes ▸ place
      exact kept _ (capturedBoxes
        (closure.template.capturesInner[index], closure.boxes[index])
        (List.mem_iff_getElem.2
          ⟨index, by rw [List.length_zip]; omega, by simp⟩))
    · exact ownBoxes slot (List.mem_filter.2 ⟨heap, by simpa using inner⟩)
  · trivial

theorem openFrame_bind {machine : Machine}
    {closure : Closure} {arguments : List Value} {good : Machine → Prop}
    {rest : Machine → Except Failure Machine}
    (surrounded : machine.Surrounded)
    (closureSound : closure.Sound)
    (argumentsSound : ∀ value ∈ arguments, value.Sound)
    (arity : arguments.length = closure.template.arity)
    (opened : ∀ callee store, Activation.Opened callee closure →
      ({ machine with store := store } : Machine).Surrounded →
      Safely good
        (rest { machine with frames :=
          callee.frame :: machine.frames, store := store })) :
    Safely good (machine.openFrame closure arguments >>= rest) :=
  Safely.bind
    (openFrame_safely surrounded closureSound argumentsSound arity opened)
    fun _ safely => safely

end Machine

end EffectScript
