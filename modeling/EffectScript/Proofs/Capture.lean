import EffectScript.Proofs.Boxes

/-!
# Captured variables

A variable that inner functions capture lives in a box. The box is made when a
call of the function that declares the variable starts, it is the box of that
variable until the call ends, and all closures that capture the variable during
the call hold it. So two closures share a variable exactly when they captured it
from the same call.

Boxes are compared by the numbers of their cells. A call is known by the moment
at which its frame is opened, which is a count of steps since the start of the
run.
-/

namespace EffectScript

open Activation

namespace Machine

variable {machine start before after now later : Machine}
    {activation : Activation Handler}
    {older activations : List (Activation Handler)} {frame : Frame}
    {below : List Frame} {instruction : Instruction}

/-! ## Steps keep boxes in their places -/

/-- What a step leads to is placed. -/
def PlacesStep (machine : Machine) : Step → Prop
  | .running after => machine.Places after
  | .finished _ after => after.Placed
  | .failed _ after => after.Placed

theorem Sound.places
    (sound : machine.Sound (activation :: older))
    (placed : machine.Placed) :
    machine.PlacesStep machine.step := by
  obtain ⟨emission, fetched, fetch, poised⟩ := sound.poised
  have framePlaced := placed.newest (sound.frames.trans List.map_cons)
  have fetchedEq : fetched = { machine with frames := fetched.frames } := by
    unfold Machine.fetch at fetch
    obtain ⟨frame, _, rest⟩ := Outcome.bind_eq_ok.1 fetch
    split at rest
    · cases rest
      rfl
    · cases rest
  have fetchedPlaced : fetched.Placed := by
    rw [fetchedEq, poised.frames]
    exact placed.replace (sound.frames.trans List.map_cons)
      (framePlaced.proceed framePlaced.stack)
  have places {flow : Flow}
      (executed : fetched.execute
        (instructionAt activation emission) = .ok flow) :
      fetched.PlacesFlow flow := by
    refine fetchedPlaced.execute poised.frames ?_ ?_ executed
    · intro operation value constant
      have valid := poised.valid
      unfold Emission.Valid at valid
      rw [Emission.opcode_of_written (by decide) operation] at valid
      obtain ⟨held, present, scalar⟩ := valid
      cases present.symm.trans constant
      exact scalar
    · intro operation heap
      -- A slot with a box is accessed through it.
      have exact_ := Emission.goesThroughBox_written
        (poised.fits.laidOut.direct poised.here)
        (show (instructionAt activation emission).opcode.accessesSlot by
          rcases operation with load | store
          · simp [load, Opcode.accessesSlot]
          · simp [store, Opcode.accessesSlot])
      have through :
          (instructionAt activation emission).opcode.goesThroughBox :=
            exact_.2 heap
      rcases operation with load | store
      · simp [load, Opcode.goesThroughBox] at through
      · simp [store, Opcode.goesThroughBox] at through
  unfold Machine.step
  rw [fetch]
  simp only
  cases executed : fetched.execute (instructionAt activation emission) with
  | error failure => exact fetchedPlaced.cleared
  | ok flow =>
      cases flow with
      | onward next =>
          refine (places executed).of_before ?_ ?_
          · rw [poised.frames, sound.frames]
            simp
          · rw [fetchedEq]
      | finished value final => exact places executed

/-! ## Sessions keep boxes in their places -/

theorem Sound.placed_reached
    (sound : machine.Sound activations)
    (live : activations ≠ []) (placed : machine.Placed)
    {count : Nat}
    (reaches : machine.reached count = some after) :
    after.Placed := by
  refine reached_induction Placed placed
    (fun count before next reaches beforePlaced steps => ?_) reaches
  obtain ⟨activation, older, beforeSound⟩ := sound.reached live reaches
  have places := beforeSound.places beforePlaced
  rw [steps] at places
  exact places.placed

theorem Sound.run_placed {bound : Nat} {ending : Ending}
    (sound : machine.Sound activations)
    (live : activations ≠ []) (placed : machine.Placed)
    (ended : machine.run bound = some ending) :
    ending.machine.Placed := by
  obtain ⟨count, last, reaches, ends⟩ := exists_last ended
  obtain ⟨activation, older, lastSound⟩ := sound.reached live reaches
  have places := lastSound.places (sound.placed_reached live placed reaches)
  rcases ends with ⟨_, _, ends⟩ | ⟨_, _, ends⟩ <;>
  · rw [ends] at places
    exact places

theorem compileSource_tidy {source file : String}
    {script : Template}
    (compiled : compileSource source file = .ok script) :
    script.Tidy := by
  obtain ⟨_, _, compiledProgram⟩ := compileSource_eq_ok.1 compiled
  exact (Block.compileWith_tidy compiledProgram).1

/-- Loading a script opens the first frame of a run. -/
theorem Placed.load
    (placed : machine.Placed)
    {source file : String} {script : Template}
    (compiled : compileSource source file = .ok script)
    (loads : machine.load script = .running start) :
    machine.cleared.Places start ∧ ∃ frame, start.frames = [frame] := by
  obtain ⟨scriptSound, captures, _⟩ := compileSource_sound compiled
  have closurePlaced : Closure.Placed machine.store.cells.size
      ⟨machine.store.unused, script, []⟩ :=
    ⟨⟨scriptSound, by simp [captures]⟩, compileSource_tidy compiled, by simp⟩
  have opened := load_inversion loads
  refine
    ⟨((placed.cleared.take 1).openFrame closurePlaced
      (by simp) opened).of_before rfl rfl, ?_⟩
  obtain ⟨slots, store, _, rfl⟩ :=
    openFrame_fills closurePlaced.sound closurePlaced.tidy opened
  exact ⟨_, rfl⟩

theorem placed_fresh (limits : Limits) (outlet : Outlet) :
    (Machine.fresh limits outlet).Placed := by
  obtain ⟨globals, methods⟩ :=
    @fresh_native (Value.Placed 0) .builtin limits outlet
  exact ⟨by simp [Machine.fresh], by simp [Machine.fresh], globals, methods, by
    simp [Machine.fresh]⟩

theorem Placed.interpret
    (placed : machine.Placed)
    (surrounded : machine.Surrounded)
    {source file : String} {script : Template}
    (compiled : compileSource source file = .ok script)
    {bound : Nat} {ending : Ending}
    (ended : machine.interpret bound script = some ending) :
    ending.machine.Placed := by
  unfold Machine.interpret at ended
  rcases surrounded.load compiled
    with ⟨activation, start, loads, _, sound⟩ | ⟨failure, fails, _⟩
  · rw [loads] at ended
    exact sound.run_placed (List.cons_ne_nil _ _)
      (placed.load compiled loads).1.placed ended
  · rw [fails] at ended
    cases ended
    exact placed.cleared

theorem Session.placed {limits : Limits} {outlet : Outlet}
    (session : Session limits outlet machine) :
    machine.Placed := by
  induction session with
  | fresh => exact placed_fresh limits outlet
  | runs session bound source file inner =>
      exact runSource_induction Placed inner inner.cleared
          fun script ending compiled ended =>
        inner.interpret session.surrounded compiled ended

/-! ## Runs keep boxes in their places -/

/-- The run of a compiled source text starts on a machine of a session. -/
def StartsOn (machine start : Machine) : Prop :=
  ∃ limits outlet source file script, Session limits outlet machine ∧
    compileSource source file = .ok script ∧
    machine.load script = .running start

theorem StartsOn.started (starts : machine.StartsOn start) : Started start := by
  obtain ⟨limits, outlet, source, file, script, session, compiled, loads⟩ :=
    starts
  exact ⟨limits, outlet, machine, source, file, script, session,
    compiled, loads⟩

theorem StartsOn.places (starts : machine.StartsOn start) :
    machine.Placed ∧ machine.cleared.Places start ∧
    ∃ frame, start.frames = [frame] := by
  obtain ⟨_, _, _, _, _, session, compiled, loads⟩ := starts
  exact ⟨session.placed, session.placed.load compiled loads⟩

theorem StartsOn.placed_reached
    (starts : machine.StartsOn start)
    {count : Nat}
    (reaches : start.reached count = some now) :
    now.Placed := by
  obtain ⟨activation, _, sound⟩ := starts.started.sound
  exact sound.placed_reached (List.cons_ne_nil _ _)
    starts.places.2.1.placed reaches

/-- A step of a run places boxes. -/
theorem StartsOn.places_step
    (starts : machine.StartsOn start)
    {count : Nat}
    (reaches : start.reached count = some now)
    (steps : now.step = .running later) :
    now.Places later := by
  obtain ⟨activation, older, sound⟩ := starts.started.sound_reached reaches
  have places := sound.places (starts.placed_reached reaches)
  rw [steps] at places
  exact places

/-- Cells are never taken away. -/
theorem StartsOn.grows
    (starts : machine.StartsOn start)
    {first last : Nat}
    (order : first ≤ last)
    (reachesFirst : start.reached first = some now)
    (reachesLast : start.reached last = some later) :
    now.store.cells.size ≤ later.store.cells.size := by
  induction order generalizing later with
  | refl =>
      cases reachesFirst.symm.trans reachesLast
      exact Nat.le_refl _
  | step _ inner =>
      obtain ⟨before, reachesBefore, steps⟩ := reached_succ.1 reachesLast
      exact Nat.le_trans (inner reachesBefore)
        (starts.places_step reachesBefore steps).grows

end Machine

/-! ## Boxes in existence -/

/-- The value has or holds the box. -/
inductive Value.Refers (cell : Nat) : Value → Prop
  | box : Refers cell (.box cell)
  | closure {closure : Closure} (member : cell ∈ closure.boxes) :
      Refers cell (.closure closure)
  | list {nodes : List (Node Value)} {node : Node Value} (member : node ∈ nodes)
      (refers : Refers cell node.value) : Refers cell (.list nodes)
  | map {identity : Nat} {entries : List (String × Value)}
      {entry : String × Value}
      (member : entry ∈ entries) (refers : Refers cell entry.2) :
        Refers cell (.map identity entries)

/-- The box is in existence: something in the machine has or holds it. -/
inductive Machine.Refers (machine : Machine) (cell : Nat) : Prop
  | stack {frame : Frame} {value : Value} (live : frame ∈ machine.frames)
      (member : value ∈ frame.stack) (refers : value.Refers cell) :
        Refers machine cell
  | slot {frame : Frame} {value : Value} (live : frame ∈ machine.frames)
      (member : value ∈ frame.slots) (refers : value.Refers cell) :
        Refers machine cell
  | running {frame : Frame} (live : frame ∈ machine.frames)
      (member : cell ∈ frame.closure.boxes) :
      Refers machine cell
  | stashed {frame : Frame} {link : EffectLink} {handler : Handler}
      (live : frame ∈ machine.frames)
      (linked : frame.link = some link) (stashed : handler ∈ link.stash)
      (member : cell ∈ handler.closure.boxes) : Refers machine cell
  | handler {handler : Handler} (inForce : handler ∈ machine.handlers)
      (member : cell ∈ handler.closure.boxes) : Refers machine cell
  | global {entry : String × Value} (member : entry ∈ machine.globals)
      (refers : entry.2.Refers cell) : Refers machine cell
  | method {entry : (String × Operator) × Value}
      (member : entry ∈ machine.methods)
      (refers : entry.2.Refers cell) : Refers machine cell
  | content {value : Value} (member : value ∈ machine.store.cells)
      (refers : value.Refers cell) :
      Refers machine cell

theorem Value.Refers.lt {cell size : Nat} {value : Value}
    (refers : value.Refers cell)
    (placed : value.Placed size) :
    cell < size := by
  induction refers with
  | box => exact placed.not_box.elim
  | closure member => exact placed.closed.boxes cell member
  | list member _ inner =>
      exact inner ((Value.Made.stable _).list.1 placed _ member)
  | map member _ inner =>
      exact inner ((Value.Made.stable _).map.1 placed _ member)

/-- A box in existence has a cell. -/
theorem Machine.Refers.lt {machine : Machine} {cell : Nat}
    (refers : machine.Refers cell)
    (placed : machine.Placed) :
    cell < machine.store.cells.size := by
  cases refers with
  | stack live member refers =>
      exact refers.lt ((placed.frames _ live).stack _ member)
  | slot live member refers =>
      obtain ⟨index, held⟩ := List.mem_iff_getElem?.1 member
      rcases (placed.frames _ live).slot held
        with boxless | ⟨other, inside, rfl⟩
      · exact refers.lt boxless
      · cases refers with
        | box => exact inside
  | running live member =>
      exact (placed.frames _ live).closure.boxes cell member
  | stashed live linked stashed member =>
      exact ((placed.frames _ live).stash _ linked _ stashed).boxes cell member
  | handler inForce member =>
      exact (placed.handlers _ inForce).boxes cell member
  | global member refers => exact refers.lt (placed.globals _ member)
  | method member refers => exact refers.lt (placed.methods _ member)
  | content member refers => exact refers.lt (placed.cells _ member)

/-! ## Calls -/

/-- The slot holds a box that the function of the frame does not capture. -/
def Frame.Owns (frame : Frame) (slot : UInt8) : Prop :=
  slot ∈ frame.template.heapSlots ∧ slot ∉ frame.template.capturesInner

namespace Machine

/-- The frame is opened at a moment of the run that starts on a machine: by
loading the script, or by a step. -/
inductive Opens (machine start : Machine) :
    Nat → Machine → Machine → Frame → Prop
  | script {frame : Frame} (frames : start.frames = [frame]) :
      Opens machine start 0 machine start frame
  | call {count : Nat} {before after : Machine} {frame : Frame}
      {below : List Frame}
      (reaches : start.reached count = some before)
        (steps : before.step = .running after)
      (frames : after.frames = frame :: below)
        (more : before.frames.length ≤ below.length) :
      Opens machine start (count + 1) before after frame

/-- The call that was opened at the moment `birth` with the given index is live
at a moment, and then it has the given frame. -/
structure Lives
    (machine start : Machine) (birth index count : Nat)
    (frame : Frame) : Prop where
  opened : ∃ before after first, Opens machine start birth before after first ∧
    after.frames.length = index + 1
  order : birth ≤ count
  live : ∀ moment during, birth ≤ moment → moment ≤ count →
    start.reached moment = some during →
    index < during.frames.length
  now : ∃ now, start.reached count = some now ∧ now.FrameAt index frame

/-- At a moment the call that was opened at the moment `birth` makes a
closure. -/
def Makes
    (machine start : Machine) (birth count : Nat) (frame : Frame)
    (closure : Closure) : Prop :=
  ∃ now after instruction below,
    Lives machine start birth below.length count frame ∧
    Steps start count now after instruction ∧
    instruction.opcode = .makeClosure ∧
    now.frames = frame :: below ∧
    after.frames =
      { frame with ip :=
        instruction.next, stack := .closure closure :: frame.stack } :: below

variable {machine start before after now : Machine}
    {activation : Activation Handler} {older : List (Activation Handler)}
    {frame : Frame} {birth index count : Nat} {closure : Closure}

theorem Opens.reaches (opens : Opens machine start birth before after frame) :
    start.reached birth = some after := by
  cases opens with
  | script => rfl
  | call reaches steps => exact reached_succ.2 ⟨_, reaches, steps⟩

theorem Opens.newest (opens : Opens machine start birth before after frame) :
    ∃ below, after.frames = frame :: below := by
  cases opens with
  | script frames => exact ⟨[], frames⟩
  | call _ _ frames => exact ⟨_, frames⟩

theorem Opens.unique {other : Frame}
    {earlier opened : Machine}
    (opens : Opens machine start birth before after frame)
    (again : Opens machine start birth earlier opened other) :
    before = earlier ∧ frame = other := by
  have same : after = opened :=
    Option.some.inj (opens.reaches.symm.trans again.reaches)
  subst same
  obtain ⟨below, frames⟩ := opens.newest
  obtain ⟨others, framesAgain⟩ := again.newest
  refine ⟨?_, (List.cons.inj (frames.symm.trans framesAgain)).1⟩
  cases opens with
  | script => cases again; rfl
  | call reaches =>
      cases again with
      | call reachesAgain =>
          exact Option.some.inj (reaches.symm.trans reachesAgain)

/-- A call is live at the moment when it is opened. -/
theorem Opens.lives (opens : Opens machine start birth before after frame) :
    Lives machine start birth (after.frames.length - 1) birth frame := by
  obtain ⟨below, frames⟩ := opens.newest
  refine ⟨⟨before, after, frame, opens, by simp [frames]⟩, Nat.le_refl _, ?_,
    after, opens.reaches, [], below, frames, by simp [frames]⟩
  intro moment during early late reaches
  cases Nat.le_antisymm early late
  cases opens.reaches.symm.trans reaches
  simp [frames]

/-- The boxes that a new frame does not capture are new. -/
theorem StartsOn.fresh
    (starts : machine.StartsOn start)
    (opens : Opens machine start birth before after frame) :
    before.Placed ∧ frame.OwnsFrom before.store.cells.size := by
  cases opens with
  | script frames =>
      obtain ⟨placed, places, _⟩ := starts.places
      exact ⟨placed, places.opened frame [] frames (by simp [Machine.cleared])⟩
  | call reaches steps frames more =>
      exact ⟨starts.placed_reached reaches,
        (starts.places_step reaches steps).opened _ _ frames more⟩

/-- A step opens at most one frame. -/
theorem Sound.length_le
    (sound : machine.Sound (activation :: older))
    (steps : machine.step = .running after) :
    after.frames.length ≤ machine.frames.length + 1 := by
  obtain ⟨_, later, _, laterSound, change⟩ := sound.running steps
  obtain ⟨gone, landed, changed, below, opened, outline⟩ :=
    change.outline sound.stacked
  have few := outline.few
  rw [laterSound.length_frames, sound.length_frames, outline.before,
    outline.after]
  simp only [List.length_append, List.length_cons]
  omega

theorem frameAt_of_lt (inside : index < machine.frames.length) :
    ∃ frame, machine.FrameAt index frame := by
  have place : machine.frames.length - 1 - index <
      machine.frames.length := by omega
  refine ⟨machine.frames[machine.frames.length - 1 - index],
    machine.frames.take (machine.frames.length - 1 - index),
    machine.frames.drop (machine.frames.length - 1 - index + 1), ?_, ?_⟩
  · exact (List.take_append_drop _ _).symm.trans
      (by rw [List.drop_eq_getElem_cons place])
  · rw [List.length_drop]
    omega

/-- Every live frame is that of a call that was opened at some moment. -/
theorem StartsOn.lives
    (starts : machine.StartsOn start)
    (reaches : start.reached count = some now)
    (live : now.FrameAt index frame) :
    ∃ birth, Lives machine start birth index count frame := by
  induction count generalizing now frame with
  | zero =>
      cases reaches
      obtain ⟨first, frames⟩ := starts.places.2.2
      obtain ⟨newer, older, parts, rfl⟩ := live
      rw [frames] at parts
      have alone : newer = [] ∧ frame = first ∧ older = [] := by
        cases newer with
        | nil =>
            obtain ⟨rfl, rfl⟩ := List.cons.inj parts
            exact ⟨rfl, rfl, rfl⟩
        | cons other newer => simp at parts
      obtain ⟨rfl, rfl, rfl⟩ := alone
      have lives := (@Opens.script machine start _ frames).lives
      rw [frames] at lives
      exact ⟨0, lives⟩
  | succ count inner =>
      obtain ⟨before, reachesBefore, steps⟩ := reached_succ.1 reaches
      by_cases old : index < before.frames.length
      · obtain ⟨earlier, liveBefore⟩ := frameAt_of_lt old
        obtain ⟨birth, lives⟩ := inner reachesBefore liveBefore
        refine ⟨birth, lives.opened, Nat.le_succ_of_le lives.order, ?_, now,
          reaches, live⟩
        intro moment during early late reachesMoment
        rcases Nat.le_succ_iff.1 late with within | rfl
        · exact lives.live moment during early within reachesMoment
        · cases reaches.symm.trans reachesMoment
          exact live.lt
      · -- The frame was not there before, so it is the newest one.
        obtain ⟨activation, activations, sound⟩ :=
          starts.started.sound_reached reachesBefore
        have few := sound.length_le steps
        obtain ⟨newer, below, parts, rfl⟩ := live
        have none : newer = [] := by
          apply List.eq_nil_of_length_eq_zero
          rw [parts, List.length_append, List.length_cons] at few
          omega
        subst none
        have opens : Opens machine start (count + 1) before now frame :=
          .call reachesBefore steps parts (Nat.le_of_not_lt old)
        have lives := opens.lives
        rw [parts] at lives
        exact ⟨count + 1, lives⟩

/-- A call keeps its closure and its boxes as long as it is live. -/
theorem StartsOn.keeps
    (starts : machine.StartsOn start)
    {later : Nat} {last : Frame}
    (lives : Lives machine start birth index count frame)
    (livesLater : Lives machine start birth index later last)
    (order : count ≤ later) :
    frame.Continues last := by
  obtain ⟨now, reaches, newer, below, frames, rfl⟩ := lives.now
  obtain ⟨final, reachesFinal, liveFinal⟩ := livesLater.now
  obtain ⟨newest, others, sound⟩ := starts.started.sound_reached reaches
  -- The frame is that of one of the activations.
  obtain ⟨above, activation, activations, parts, level⟩ :
      ∃ above activation activations,
        newest :: others = above ++ activation :: activations ∧
        activations.length = below.length := by
    have framesEq := sound.frames.symm.trans frames
    obtain ⟨above, rest, parts, _, restEq⟩ := List.map_eq_append_iff.1 framesEq
    obtain ⟨activation, activations, rfl, _, belowEq⟩ :=
      List.map_eq_cons_iff.1 restEq
    exact ⟨above, activation, activations, parts, by
      rw [← belowEq, List.length_map]⟩
  rw [parts] at sound
  rw [← level] at liveFinal
  have frameEq := sound.frameAt.1 ⟨newer, below, frames, level.symm⟩
  obtain ⟨_, kept, finalSound, continues⟩ :=
    sound.persists reaches order reachesFinal
    fun moment during early late reachesMoment => level ▸
      livesLater.live moment during
        (Nat.le_of_lt (Nat.lt_of_le_of_lt lives.order early)) late reachesMoment
  rw [frameEq, finalSound.frameAt.1 liveFinal]
  exact continues

/-- A box in a slot of a call was there when the call was opened. -/
theorem StartsOn.first_box
    (starts : machine.StartsOn start)
    {slot : UInt8} {cell : Nat}
    (lives : Lives machine start birth index count frame)
    (held : frame.slots[slot.toNat]? = some (.box cell)) :
    ∃ before after first, Opens machine start birth before after first ∧
      first.slots[slot.toNat]? = some (.box cell) ∧
      (frame.Owns slot ↔ first.Owns slot) := by
  obtain ⟨before, after, first, opens, level⟩ := lives.opened
  have livesFirst := opens.lives
  rw [level, Nat.add_sub_cancel] at livesFirst
  have continues := starts.keeps livesFirst lives lives.order
  have templates : frame.template = first.template :=
    congrArg Closure.template continues.closure
  obtain ⟨now, reaches, newer, older, frames, _⟩ := lives.now
  have heap :=
    ((starts.placed_reached reaches).frames frame
      (by simp [frames])).mem_heapSlots held
  refine ⟨before, after, first, opens, ?_, by simp only [Frame.Owns, templates]⟩
  rw [← continues.boxes slot (templates ▸ heap), held]

/-- A step that makes a closure gives it the boxes in the slots that its
function captures. -/
theorem StartsOn.step_makeClosure
    (starts : machine.StartsOn start)
    {instruction : Instruction} {below : List Frame}
    (steps : Steps start count now after instruction)
    (operation : instruction.opcode = .makeClosure)
    (frames : now.frames = frame :: below) :
    ∃ closure, frame.template.pools.IsFunction instruction.byte
        closure.template ∧
      (∀ (position : Nat) slot,
        closure.template.capturesOuter[position]? = some slot →
        ∃ cell, closure.boxes[position]? = some cell ∧
          frame.slots[slot.toNat]? = some (.box cell)) ∧
      after.frames =
        { frame with ip := instruction.next, stack := .closure closure ::
          frame.stack } :: below := by
  have placed := starts.placed_reached steps.reaches
  have framePlaced := placed.newest frames
  have fetched :
      ({ now with frames := { frame with ip := instruction.next } :: below } :
      Machine).Placed :=
    placed.replace frames (framePlaced.proceed framePlaced.stack)
  have executed := execute_eq frames
    ((instruction?_eq_some frames).1 steps.executes) steps.steps
  unfold Machine.execute at executed
  rw [top_eq rfl, Outcome.ok_bind] at executed
  simp only [operation] at executed
  obtain ⟨made, makes, onward⟩ := Outcome.bind_eq_ok.1 executed
  cases onward
  obtain ⟨closure, _, isFunction, boxCount, boxes, rfl⟩ :=
    fetched.makeClosure rfl makes
  refine ⟨closure, isFunction, ?_, rfl⟩
  intro position slot captures
  have inside := (List.getElem?_eq_some_iff.1 captures).1
  have given := List.getElem?_eq_getElem (l := closure.boxes) (i := position)
    (boxCount ▸ inside)
  exact ⟨_, given, boxes position slot _ captures given⟩

theorem StartsOn.makes
    (starts : machine.StartsOn start)
    {instruction : Instruction}
    (steps : Steps start count now after instruction)
    (operation : instruction.opcode = .makeClosure) :
    ∃ birth frame closure, Makes machine start birth count frame closure ∧
      frame.template.pools.IsFunction instruction.byte closure.template := by
  obtain ⟨activation, older, sound⟩ :=
    starts.started.sound_reached steps.reaches
  have frames : now.frames = activation.frame :: older.map (·.frame) :=
    sound.frames
  obtain ⟨birth, lives⟩ := starts.lives steps.reaches ⟨[], _, frames, rfl⟩
  obtain ⟨closure, isFunction, _, made⟩ :=
    starts.step_makeClosure steps operation frames
  exact ⟨birth, activation.frame, closure,
    ⟨now, after, instruction, _, lives, steps, operation, frames, made⟩,
    isFunction⟩

theorem StartsOn.makes_boxes
    (starts : machine.StartsOn start)
    (makes : Makes machine start birth count frame closure)
    {position : Nat} {slot : UInt8}
    (captures : closure.template.capturesOuter[position]? = some slot) :
    ∃ cell, closure.boxes[position]? = some cell ∧
      frame.slots[slot.toNat]? = some (.box cell) := by
  obtain ⟨now, after, instruction, below, _, steps, operation, frames, made⟩ :=
    makes
  obtain ⟨other, _, boxes, otherMade⟩ :=
    starts.step_makeClosure steps operation frames
  have same : closure = other := by
    have framesEq := (List.cons.inj (made.symm.trans otherMade)).1
    simpa using congrArg Frame.stack framesEq
  subst same
  exact boxes position slot captures

/-- Closures that capture the same variable of the same call hold the same
box. -/
theorem StartsOn.shares
    (starts : machine.StartsOn start)
    {count later position place : Nat} {frame last : Frame}
    {closure other : Closure} {slot : UInt8}
    (makes : Makes machine start birth count frame closure)
    (captures : closure.template.capturesOuter[position]? = some slot)
    (makesLater : Makes machine start birth later last other)
    (capturesLater : other.template.capturesOuter[place]? = some slot) :
    closure.boxes[position]? = other.boxes[place]? := by
  obtain ⟨cell, given, held⟩ := starts.makes_boxes makes captures
  obtain ⟨otherCell, otherGiven, otherHeld⟩ :=
    starts.makes_boxes makesLater capturesLater
  obtain ⟨_, _, _, _, lives, _⟩ := makes
  obtain ⟨_, _, _, _, livesLater, _⟩ := makesLater
  obtain ⟨_, _, first, opens, firstHeld, _⟩ := starts.first_box lives held
  obtain ⟨_, _, again, opensAgain, againHeld, _⟩ :=
    starts.first_box livesLater otherHeld
  obtain ⟨_, rfl⟩ := opens.unique opensAgain
  cases firstHeld.symm.trans againHeld
  exact given.trans otherGiven.symm

end Machine

end EffectScript
