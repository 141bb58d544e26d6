import EffectScript.Proofs.Boxes

/-!
# Where values come from

A machine makes new values only of those that it has: it takes constants of
functions that are being called, makes closures of them, and applies operators
and native functions. So a property that is *inherited* in this way stays true
of all values of a machine, wherever they are kept.

On the way through all operations this module also follows the newest frame:
unless it repeats something, an operation that leaves as many frames as before
leaves the newest one at its offset or further ahead.
-/

namespace EffectScript

/-- A kept property that boxes have, and that constants and closures of
functions have when the closure has it that is being called. -/
structure Value.Inherited (property : Value → Prop) :
    Prop extends Value.Kept property where
  box (cell : Nat) : property (.box cell)
  constant {closure : Closure} {value : Value}
    (has : property (.closure closure))
    (member : value ∈ closure.template.constants) : property value
  closes {identity : Nat} {closure : Closure}
    (has : property (.function identity closure.template)) :
      property (.closure closure)

/-- All values of a frame have the property. -/
structure Frame.Everywhere (property : Value → Prop) (frame : Frame) :
    Prop where
  closure : property (.closure frame.closure)
  stack : ∀ value ∈ frame.stack, property value
  slots : ∀ value ∈ frame.slots, property value
  stash : ∀ link, frame.link = some link →
    ∀ handler ∈ link.stash, property (.closure handler.closure)

/-- All values of a machine have the property. -/
structure Machine.Everywhere (property : Value → Prop) (machine : Machine) :
    Prop where
  frames : ∀ frame ∈ machine.frames, frame.Everywhere property
  handlers : ∀ handler ∈ machine.handlers, property (.closure handler.closure)
  globals : ∀ entry ∈ machine.globals, property entry.2
  methods : ∀ entry ∈ machine.methods, property entry.2
  cells : ∀ value ∈ machine.store.cells, property value

/-! ## Frames -/

section New

variable {property : Value → Prop} {owner : String} {slots placed : List Value}

theorem placeCaptures_forall
    (boxes : ∀ cell, property (.box cell))
    {captures : List (UInt8 × Nat)}
    (have_ : ∀ value ∈ slots, property value)
    (placedEq : placeCaptures owner captures slots = .ok placed) :
    ∀ value ∈ placed, property value := by
  induction captures generalizing slots with
  | nil =>
      cases placedEq
      exact have_
  | cons capture others inner =>
      simp only [placeCaptures] at placedEq
      split at placedEq
      · refine inner (fun value member => ?_) placedEq
        rcases List.mem_or_eq_of_mem_set member with old | rfl
        · exact have_ value old
        · exact boxes _
      · cases placedEq

theorem boxSlots_forall
    (boxes : ∀ cell, property (.box cell))
    {chosen : List UInt8} {store after : Store}
    (have_ : ∀ value ∈ slots, property value)
    (cells : ∀ value ∈ store.cells, property value)
    (placedEq : boxSlots owner chosen slots store = .ok (placed, after)) :
    (∀ value ∈ placed, property value) ∧
      ∀ value ∈ after.cells, property value := by
  induction chosen generalizing slots store with
  | nil =>
      cases placedEq
      exact ⟨have_, cells⟩
  | cons slot others inner =>
      simp only [boxSlots] at placedEq
      split at placedEq
      next content present =>
        refine inner (fun value member => ?_) (fun value member => ?_) placedEq
        · rcases List.mem_or_eq_of_mem_set member with old | rfl
          · exact have_ value old
          · exact boxes _
        · rcases Array.mem_push.1 member with old | rfl
          · exact cells value old
          · exact have_ value (List.mem_of_getElem? present)
      · cases placedEq

end New

namespace Frame.Everywhere

variable {property : Value → Prop} {frame : Frame}

/-- Only the operand stack matters when a frame goes on with the same slots. -/
theorem proceed
    (everywhere : frame.Everywhere property)
    {stack : List Value} {place : Nat}
    (have_ : ∀ value ∈ stack, property value) :
    ({ frame with stack := stack, ip := place } : Frame).Everywhere property :=
  ⟨everywhere.closure, have_, everywhere.slots, everywhere.stash⟩

theorem given
    (everywhere : frame.Everywhere property)
    {value : Value}
    (has : property value) :
    (frame.given value).Everywhere property := by
  refine everywhere.proceed fun held member => ?_
  rcases List.mem_cons.1 member with rfl | old
  · exact has
  · exact everywhere.stack held old

theorem pop
    (everywhere : frame.Everywhere property)
    {value : Value} {popped : Frame}
    (pops : frame.pop = .ok (value, popped)) :
    property value ∧ popped.Everywhere property ∧ popped.ip = frame.ip := by
  unfold Frame.pop at pops
  split at pops
  · cases pops
  next first stack stackEq =>
    cases pops
    refine ⟨everywhere.stack _ (stackEq ▸ List.mem_cons_self),
      everywhere.proceed fun held member => ?_, rfl⟩
    exact everywhere.stack held (stackEq ▸ List.mem_cons_of_mem _ member)

theorem slot
    (everywhere : frame.Everywhere property)
    {index : UInt8} {value : Value}
    (reads : frame.slot index = .ok value) :
    property value := by
  unfold Frame.slot at reads
  split at reads
  next held present =>
    cases reads
    exact everywhere.slots _ (List.mem_of_getElem? present)
  next => cases reads

theorem setSlot
    (everywhere : frame.Everywhere property)
    {index : UInt8} {value : Value}
    (has : property value)
    {stored : Frame}
    (stores : frame.setSlot index value = .ok stored) :
    stored.Everywhere property ∧ stored.ip = frame.ip := by
  unfold Frame.setSlot at stores
  split at stores
  · cases stores
    refine ⟨⟨everywhere.closure, everywhere.stack, fun held member => ?_,
      everywhere.stash⟩, rfl⟩
    rcases List.mem_or_eq_of_mem_set member with old | rfl
    · exact everywhere.slots held old
    · exact has
  · cases stores

end Frame.Everywhere

namespace Machine

variable {property : Value → Prop} {machine after : Machine} {frame : Frame}
    {below : List Frame} {allowed : Limits} {value : Value}

namespace Everywhere

theorem newest
    (everywhere : machine.Everywhere property)
    (frames : machine.frames = frame :: below) :
    frame.Everywhere property :=
  everywhere.frames frame (frames ▸ List.mem_cons_self)

/-- The newest frame is replaced. -/
theorem replace
    (everywhere : machine.Everywhere property)
    (frames : machine.frames = frame :: below)
    {changed : Frame}
    (has : changed.Everywhere property) :
    ({ machine with frames := changed :: below } : Machine).Everywhere
      property := by
  refine ⟨fun other member => ?_, everywhere.handlers, everywhere.globals,
    everywhere.methods, everywhere.cells⟩
  rcases List.mem_cons.1 member with rfl | old
  · exact has
  · exact everywhere.frames other (frames ▸ List.mem_cons_of_mem _ old)

/-- Frames and handlers go. -/
theorem unwind
    (everywhere : machine.Everywhere property)
    {frames : List Frame} {handlers : List Handler}
    (fewer : ∀ other ∈ frames, other ∈ machine.frames)
    (known : ∀ handler ∈ handlers, property (.closure handler.closure)) :
    ({ machine with frames := frames, handlers := handlers } :
      Machine).Everywhere property :=
  ⟨fun other member => everywhere.frames other (fewer other member), known,
    everywhere.globals, everywhere.methods, everywhere.cells⟩

theorem take (everywhere : machine.Everywhere property) (count : Nat) :
    (machine.take count).Everywhere property :=
  ⟨everywhere.frames, everywhere.handlers, everywhere.globals,
    everywhere.methods, everywhere.cells⟩

theorem spare
    (everywhere : machine.Everywhere property)
    (spares : machine.Spares property after) :
    after.Everywhere property :=
  ⟨spares.frames ▸ everywhere.frames, spares.handlers ▸ everywhere.handlers,
    spares.globals ▸ everywhere.globals, spares.methods everywhere.methods,
    spares.cells ▸ everywhere.cells⟩

theorem found
    (everywhere : machine.Everywhere property)
    {typeName : String} {operator : Operator} {method : Value}
    (found : machine.methods.find? typeName operator = some method) :
    property method := by
  obtain ⟨entry, member, rfl⟩ := MethodTable.mem_of_find? found
  exact everywhere.methods entry member

theorem read
    (everywhere : machine.Everywhere property)
    (nil : property .nil) (cell : Nat) :
    property (machine.store.read cell) := by
  unfold Store.read
  cases present : machine.store.cells[cell]? with
  | none => exact nil
  | some value => exact everywhere.cells value (Array.mem_of_getElem? present)

theorem openFrame
    (everywhere : machine.Everywhere property)
    (inherited : Value.Inherited property)
    {closure : Closure} {arguments : List Value}
    (has : property (.closure closure))
    (argumentsHave : ∀ value ∈ arguments, property value)
    (opened : machine.openFrame closure arguments = .ok after) :
    after.Everywhere property ∧ after.limits = machine.limits ∧
      machine.frames.length < machine.limits.maxFrames ∧
      ∃ callee, after.frames = callee :: machine.frames := by
  obtain ⟨room, captured, slots, store, capturedEq, slotsEq, rfl⟩ :=
    openFrame_inversion opened
  have initial : ∀ value ∈ closure.initialSlots arguments, property value := by
    intro value member
    rcases List.mem_append.1 member with given | unset
    · rcases List.mem_cons.1 given with rfl | argument
      · exact has
      · exact argumentsHave value argument
    · rw [List.eq_of_mem_replicate unset]
      exact inherited.nil
  obtain ⟨slotsHave, cellsHave⟩ := boxSlots_forall inherited.box
    (placeCaptures_forall inherited.box initial capturedEq)
      everywhere.cells slotsEq
  refine ⟨⟨fun other member => ?_, everywhere.handlers, everywhere.globals,
    everywhere.methods, cellsHave⟩, rfl, room, _, rfl⟩
  rcases List.mem_cons.1 member with rfl | old
  · exact ⟨has, by simp, slotsHave, by rintro _ ⟨⟩⟩
  · exact everywhere.frames other old

/-- Resuming brings back handlers that were stashed. -/
theorem resume
    (everywhere : machine.Everywhere property)
    (resumes : machine.resume = .ok after) :
    after.Everywhere property ∧ after.limits = machine.limits ∧
      ∃ count, after.frames = oldest count machine.frames := by
  obtain ⟨link, found, rfl⟩ := resume_inversion resumes
  obtain ⟨frame, live, linked⟩ := List.exists_of_findSome?_eq_some found
  refine ⟨everywhere.unwind (fun other member => List.mem_of_mem_drop member)
    ?_, rfl, _, rfl⟩
  intro handler member
  rcases List.mem_append.1 member with stashed | old
  · exact (everywhere.frames frame live).stash link linked handler stashed
  · exact everywhere.handlers handler (List.mem_of_mem_drop old)

end Everywhere

/-! ## Operations of the newest frame -/

/-- The machine is in the middle of an instruction of a frame: only the operand
stack of the frame has changed so far. -/
structure Working
    (property : Value → Prop) (allowed : Limits) (frame : Frame)
    (below : List Frame) (machine : Machine) : Prop where
  everywhere : machine.Everywhere property
  limits : machine.limits = allowed
  frames : ∃ stack, machine.frames = { frame with stack := stack } :: below

/-- What an instruction of a frame leads to. A frame is opened only within the
limits, and with as many frames as before the newest one is at its offset or
further ahead. -/
structure Proceeds
    (property : Value → Prop) (allowed : Limits) (frame : Frame)
    (below : List Frame) (after : Machine) : Prop where
  everywhere : after.Everywhere property
  limits : after.limits = allowed
  few : after.frames.length ≤ below.length + 1 ∨
    after.frames.length ≤ allowed.maxFrames
  forward : ∀ changed rest, after.frames = changed :: rest →
    rest.length = below.length →
    frame.ip ≤ changed.ip

/-- The newest frame is replaced by one that is at its offset or further
ahead. -/
theorem Everywhere.proceeds
    (everywhere : machine.Everywhere property)
    (frames : machine.frames = frame :: below)
    {changed : Frame}
    (has : changed.Everywhere property)
    (ahead : frame.ip ≤ changed.ip) :
    Proceeds property machine.limits frame below
      { machine with frames := changed :: below } where
  everywhere := everywhere.replace frames has
  limits := rfl
  few := .inl (Nat.le_refl _)
  forward := by
    rintro _ _ ⟨⟩ _
    exact ahead

/-- The newest frame is gone. -/
theorem Proceeds.of_fewer
    (everywhere : after.Everywhere property)
    (same : after.limits = allowed)
    (fewer : after.frames.length ≤ below.length) :
    Proceeds property allowed frame below after where
  everywhere := everywhere
  limits := same
  few := .inl (by omega)
  forward := by
    intro changed rest frames count
    rw [frames, List.length_cons] at fewer
    omega

/-- Tying the newest frame to an effect stashes handlers in it. -/
theorem Proceeds.tie
    (proceeds : Proceeds property allowed frame below machine)
    {link : EffectLink}
    (stashed : ∀ handler ∈ link.stash, property (.closure handler.closure))
    (tied : machine.tie link = .ok after) :
    Proceeds property allowed frame below after := by
  obtain ⟨newest, rest, frames, rfl⟩ := tie_inversion tied
  have newestEverywhere := proceeds.everywhere.newest frames
  refine ⟨proceeds.everywhere.replace frames
    ⟨newestEverywhere.closure, newestEverywhere.stack,
    newestEverywhere.slots, ?_⟩, proceeds.limits, ?_, ?_⟩
  · rintro _ ⟨⟩
    exact stashed
  · simpa [frames] using proceeds.few
  · rintro _ _ ⟨⟩ count
    exact proceeds.forward newest rest frames count

namespace Working

theorem proceeds (working : Working property allowed frame below machine) :
    Proceeds property allowed frame below machine := by
  obtain ⟨stack, frames⟩ := working.frames
  refine ⟨working.everywhere, working.limits, .inl (by simp [frames]), ?_⟩
  intro changed rest same _
  cases frames.symm.trans same
  exact Nat.le_refl _

theorem push
    (working : Working property allowed frame below machine)
    (has : property value)
    (pushed : machine.push value = .ok after) :
    Working property allowed frame below after := by
  obtain ⟨newest, rest, frames, _, rfl⟩ := push_inversion pushed
  obtain ⟨stack, framesEq⟩ := working.frames
  cases frames.symm.trans framesEq
  exact ⟨working.everywhere.replace frames
    ((working.everywhere.newest frames).given has),
    working.limits, _, rfl⟩

theorem pop
    (working : Working property allowed frame below machine)
    (popped : machine.pop = .ok (value, after)) :
    property value ∧ Working property allowed frame below after := by
  obtain ⟨newest, rest, stack, frames, stackEq, rfl⟩ := pop_inversion popped
  obtain ⟨_, framesEq⟩ := working.frames
  have newestEverywhere := working.everywhere.newest frames
  refine ⟨newestEverywhere.stack value (by simp [stackEq]),
    working.everywhere.replace frames
        (newestEverywhere.proceed fun held member =>
      newestEverywhere.stack held (stackEq ▸ List.mem_cons_of_mem _ member)),
      working.limits, stack, ?_⟩
  cases frames.symm.trans framesEq
  rfl

theorem take
    (working : Working property allowed frame below machine)
    (count : Nat) :
    Working property allowed frame below (machine.take count) :=
  ⟨working.everywhere.take count, working.limits, working.frames⟩

/-! ## Calls -/

/-- Resuming and giving the resumed frame a value. -/
theorem resume
    (working : Working property allowed frame below machine)
    {resumed : Machine}
    (resumes : machine.resume = .ok resumed)
    (has : property value)
    (pushed : resumed.push value = .ok after) :
    Proceeds property allowed frame below after := by
  obtain ⟨resumedEverywhere, sameLimits, count, framesEq⟩ :=
    working.everywhere.resume resumes
  obtain ⟨newest, rest, frames, _, rfl⟩ := push_inversion pushed
  obtain ⟨stack, workingFrames⟩ := working.frames
  have parts : oldest count ({ frame with stack := stack } :: below) =
      newest :: rest := by
    rw [← workingFrames, ← framesEq, frames]
  have lengthEq : min count (below.length + 1) = rest.length + 1 := by
    have := congrArg List.length parts
    simpa using this
  refine ⟨resumedEverywhere.replace frames
    ((resumedEverywhere.newest frames).given has),
    sameLimits.trans working.limits, .inl ?_, ?_⟩
  · simp only [List.length_cons]
    omega
  · rintro _ _ ⟨⟩ same
    -- As many frames as before: it is the newest frame that was resumed.
    have whole : (below.length + 1) - count = 0 := by omega
    rw [oldest, List.length_cons, whole, List.drop_zero] at parts
    cases parts
    exact Nat.le_refl _

theorem callValue
    (working : Working property allowed frame below machine)
    (inherited : Value.Inherited property)
    {callee : Value} {arguments : List Value}
    (has : property callee)
    (argumentsHave : ∀ value ∈ arguments, property value)
    (called : machine.callValue callee arguments = .ok after) :
    Proceeds property allowed frame below after := by
  rcases callValue_inversion called with ⟨closure, rfl, _, opens⟩ |
    ⟨builtin, result, invoked, rfl, calls, pushes⟩
  · obtain ⟨everywhere, sameLimits, room, callee, frames⟩ :=
      working.everywhere.openFrame inherited has argumentsHave opens
    obtain ⟨stack, framesEq⟩ := working.frames
    rw [working.limits] at room sameLimits
    refine ⟨everywhere, sameLimits,
      .inr (by rw [frames, List.length_cons]; omega), ?_⟩
    intro changed rest same count
    cases frames.symm.trans same
    rw [framesEq, List.length_cons] at count
    omega
  · obtain ⟨resultHas, spares | ⟨_, resumes⟩⟩ :=
      Builtin.call_kept inherited.toKept argumentsHave calls
    · have invokedWorking : Working property allowed frame below invoked :=
        ⟨working.everywhere.spare spares, spares.limits.trans working.limits,
          spares.frames ▸ working.frames⟩
      exact (invokedWorking.push resultHas pushes).proceeds
    · exact working.resume resumes resultHas pushes

theorem call
    (working : Working property allowed frame below machine)
    (inherited : Value.Inherited property)
    {count : Nat}
    (called : machine.call count = .ok after) :
    Proceeds property allowed frame below after := by
  obtain ⟨newest, others, callee, remaining, frames, parts, calls⟩ :=
    call_inversion called
  have newestEverywhere := working.everywhere.newest frames
  obtain ⟨stack, framesEq⟩ := working.frames
  have taken : ∀ value ∈ newest.stack.drop count, property value :=
    fun value member =>
      newestEverywhere.stack value (List.mem_of_mem_drop member)
  rw [parts] at taken
  have popped : Working property allowed frame below
      { machine with frames :=
        { newest with stack := remaining } :: others } := by
    refine ⟨working.everywhere.replace frames
        (newestEverywhere.proceed fun value member =>
      taken value (List.mem_cons_of_mem _ member)), working.limits,
      remaining, ?_⟩
    cases frames.symm.trans framesEq
    rfl
  refine popped.callValue inherited (taken callee List.mem_cons_self) ?_ calls
  exact fun value member =>
    newestEverywhere.stack value
      (List.mem_of_mem_take (List.mem_reverse.1 member))

/-! ## Operators and effects -/

/-- Operators and effects make nothing that does not have the property when the
values in flight have it. -/
theorem carries (inherited : Value.Inherited property) :
    Carries
        (fun machine values => Working property allowed frame below machine ∧
      ∀ value ∈ values, property value)
        (Proceeds property allowed frame below) where
  pop := by
    rintro _ _ _ _ ⟨working, held⟩ popped
    obtain ⟨has, poppedWorking⟩ := working.pop popped
    exact ⟨poppedWorking, List.forall_mem_cons.2 ⟨has, held⟩⟩
  push := by
    rintro _ _ _ _ ⟨working, held⟩ pushed
    obtain ⟨has, others⟩ := List.forall_mem_cons.1 held
    exact ⟨working.push has pushed, others⟩
  landed holds := holds.1.proceeds
  call holds called := holds.1.call inherited called
  scalar holds scalar :=
    ⟨holds.1, List.forall_mem_singleton.2 (inherited.of_isScalar scalar)⟩
  binary := by
    rintro _ _ _ _ _ ⟨working, held⟩ ruled
    obtain ⟨leftHas, others⟩ := List.forall_mem_cons.1 held
    have has := Operator.binary_kept inherited.toKept leftHas
      (List.forall_mem_singleton.1 others) ruled
    exact ⟨working.take _, List.forall_mem_singleton.2 has⟩
  method holds found :=
    ⟨holds.1, List.forall_mem_cons.2 ⟨holds.1.everywhere.found found, holds.2⟩⟩
  masked := by
    rintro _ _ _ _ ⟨working, held⟩ found
    obtain ⟨chosen, _, staying⟩ :=
      Dispatch.forall_of_find? working.everywhere.handlers found
    exact ⟨⟨working.everywhere.unwind (fun _ live => live) staying,
      working.limits, working.frames⟩, List.forall_mem_cons.2 ⟨chosen, held⟩⟩
  tie holds found same proceeds tied := by
    obtain ⟨_, stashed, _⟩ :=
      Dispatch.forall_of_find? holds.1.everywhere.handlers found
    exact proceeds.tie (same ▸ stashed) tied

theorem setHandler
    (working : Working property allowed frame below machine)
    {effect : String} {distance : Nat}
    (registered : machine.setHandler effect distance = .ok after) :
    Proceeds property allowed frame below after := by
  obtain ⟨closure, popped, _, _, pops, _, rfl⟩ :=
    setHandler_inversion registered
  obtain ⟨closureHas, poppedWorking⟩ := working.pop pops
  exact Working.proceeds ⟨poppedWorking.everywhere.unwind (fun _ live => live)
    (List.forall_mem_cons.2 ⟨closureHas, poppedWorking.everywhere.handlers⟩),
    poppedWorking.limits, poppedWorking.frames⟩

theorem loadHeap
    (working : Working property allowed frame below machine)
    (inherited : Value.Inherited property)
    {instruction : Instruction}
    (loaded : machine.loadHeap instruction = .ok after) :
    Proceeds property allowed frame below after := by
  obtain ⟨cell, pushes⟩ := loadHeap_inversion loaded
  exact (working.push (working.everywhere.read inherited.nil cell)
    pushes).proceeds

theorem storeHeap
    (working : Working property allowed frame below machine)
    {instruction : Instruction}
    (stored : machine.storeHeap instruction = .ok after) :
    Proceeds property allowed frame below after := by
  obtain ⟨value, popped, cell, pops, rfl⟩ := storeHeap_inversion stored
  obtain ⟨valueHas, poppedWorking⟩ := working.pop pops
  have everywhere := poppedWorking.everywhere
  refine Working.proceeds
    ⟨⟨everywhere.frames, everywhere.handlers, everywhere.globals,
    everywhere.methods, fun content member => ?_⟩, poppedWorking.limits,
      poppedWorking.frames⟩
  rcases Array.mem_or_eq_of_mem_setIfInBounds member with old | rfl
  · exact everywhere.cells content old
  · exact valueHas

theorem makeClosure
    (working : Working property allowed frame below machine)
    (inherited : Value.Inherited property)
    {index : UInt8}
    (made : machine.makeClosure index = .ok after) :
    Proceeds property allowed frame below after := by
  obtain ⟨newest, others, identity, template, boxes, frames, constant,
      _, pushes⟩ :=
    makeClosure_inversion made
  have functionHas : property (.function identity template) :=
    inherited.constant (working.everywhere.newest frames).closure
      (List.mem_of_getElem? constant)
  exact ((working.take 1).push
    (@Value.Inherited.closes _ inherited identity
      ⟨machine.store.unused, template, boxes⟩ functionHas)
    pushes).proceeds

end Working

/-! ## Returning -/

theorem Everywhere.withoutNewest (everywhere : machine.Everywhere property) :
    machine.withoutNewest.Everywhere property :=
  everywhere.unwind (fun _ member => List.mem_of_mem_tail member)
    fun handler member =>
      everywhere.handlers handler (List.dropWhile_subset _ member)

theorem Everywhere.abandon
    (everywhere : machine.Everywhere property)
    {link : EffectLink}
    (has : property value)
    (abandoned : machine.abandon link value = .ok after) :
    after.Everywhere property ∧ after.limits = machine.limits ∧
      after.frames.length ≤ machine.frames.length := by
  obtain ⟨frame, below, kept, pushes⟩ := abandon_inversion abandoned
  have older : ∀ other ∈ frame :: below, other ∈ machine.frames :=
    fun other member =>
      List.mem_of_mem_drop (kept ▸ member : other ∈ oldest _ machine.frames)
  have frameEverywhere :=
    everywhere.frames frame (older frame List.mem_cons_self)
  have unwound : ({ machine with
      frames := frame :: below
      handlers := oldest link.groupStart machine.handlers } :
        Machine).Everywhere property :=
    everywhere.unwind older fun handler member =>
      everywhere.handlers handler (List.mem_of_mem_drop member)
  have completed := unwound.replace rfl
    (@Frame.Everywhere.proceed _ _ frameEverywhere
    (oldest link.depth frame.stack) link.target
    fun held member => frameEverywhere.stack held (List.mem_of_mem_drop member))
  obtain ⟨_, _, same, _, rfl⟩ := push_inversion pushes
  cases same
  refine ⟨completed.replace rfl ((completed.newest rfl).given has), rfl, ?_⟩
  change (frame :: below).length ≤ machine.frames.length
  rw [← kept]
  simp only [length_oldest, Nat.min_le_right]

theorem Everywhere.returnValue
    (everywhere : machine.Everywhere property)
    (frames : machine.frames = frame :: below)
    (returned : machine.returnValue = .ok (.onward after)) :
    Proceeds property machine.limits frame below after := by
  obtain ⟨newest, _, value, same, stack, result⟩ :=
    returnValue_inversion returned
  have has := (everywhere.newest same).stack value (by simp [stack])
  have remaining := everywhere.withoutNewest
  have count : machine.withoutNewest.frames.length = below.length := by
    simp [Machine.withoutNewest, frames]
  rcases result with ⟨link, completed, abandons, onward⟩ | onward | ⟨pushed,
    pushes, onward⟩
  · cases onward
    obtain ⟨afterEverywhere, limits, few⟩ := remaining.abandon has abandons
    exact .of_fewer afterEverywhere limits (count ▸ few)
  · cases onward
  · cases onward
    obtain ⟨older, rest, olderFrames, _, rfl⟩ := push_inversion pushes
    refine .of_fewer
      (remaining.replace olderFrames ((remaining.newest olderFrames).given has))
        rfl ?_
    rw [← count, olderFrames]
    exact Nat.le_refl _

/-! ## Instructions -/

/-- What executing an instruction leads to, unless it repeats something. -/
theorem Everywhere.execute
    (everywhere : machine.Everywhere property)
    (inherited : Value.Inherited property)
    (frames : machine.frames = frame :: below)
    {instruction : Instruction}
    (onceOnly : instruction.opcode ≠ .loop)
    (executed : machine.execute instruction = .ok (.onward after)) :
    Proceeds property machine.limits frame below after := by
  have frameEverywhere := everywhere.newest frames
  have working : Working property machine.limits frame below machine :=
    ⟨everywhere, rfl, frame.stack, frames⟩
  have ready : Working property machine.limits frame below machine ∧
      ∀ value ∈ [], property value :=
    ⟨working, List.forall_mem_nil _⟩
  have replacing {changed : Frame} (has : changed.Everywhere property)
      (ahead : frame.ip ≤ changed.ip) :
      Proceeds property machine.limits frame below
        (machine.setTop changed) := by
    rw [setTop_eq frames]
    exact everywhere.proceeds frames has ahead
  cases execute_inversion frames executed with
  | constant operation found pushes =>
      have pooled := inherited.constant frameEverywhere.closure
        (List.mem_of_getElem? found)
      exact (working.push pooled pushes).proceeds
  | simple plain pushes =>
      obtain rfl | ⟨truth, rfl⟩ := plain
      · exact (working.push inherited.nil pushes).proceeds
      · exact (working.push (inherited.bool truth) pushes).proceeds
  | loadLocal operation reads pushes =>
      exact (working.push (frameEverywhere.slot reads) pushes).proceeds
  | storeLocal operation pops stores =>
      obtain ⟨has, poppedEverywhere, poppedAt⟩ := frameEverywhere.pop pops
      obtain ⟨storedEverywhere, storedAt⟩ := poppedEverywhere.setSlot has stores
      exact replacing storedEverywhere (storedAt.trans poppedAt).ge
  | loadHeap loads => exact working.loadHeap inherited loads
  | storeHeap stores => exact working.storeHeap stores
  | loadGlobal found pushes =>
      obtain ⟨entry, member, rfl⟩ := Dictionary.mem_of_find? found
      exact (working.push (everywhere.globals entry member) pushes).proceeds
  | storeGlobal name pops =>
      obtain ⟨has, poppedWorking⟩ := working.pop pops
      have known := poppedWorking.everywhere
      refine Working.proceeds
        ⟨⟨known.frames, known.handlers, fun entry member => ?_, known.methods,
        known.cells⟩, poppedWorking.limits, poppedWorking.frames⟩
      rcases Dictionary.mem_insert member with rfl | old
      · exact has
      · exact known.globals entry old
  | pop pops => exact (working.pop pops).2.proceeds
  | swap stack =>
      refine replacing (frameEverywhere.proceed fun value member => ?_)
        (Nat.le_refl _)
      refine frameEverywhere.stack value (stack ▸ ?_)
      simp only [List.mem_cons] at member ⊢
      tauto
  | jump =>
      exact replacing (frameEverywhere.proceed frameEverywhere.stack)
        (Nat.le_add_right _ _)
  | fallThrough pops =>
      obtain ⟨_, poppedEverywhere, poppedAt⟩ := frameEverywhere.pop pops
      exact replacing poppedEverywhere poppedAt.ge
  | branch pops =>
      obtain ⟨_, poppedEverywhere, poppedAt⟩ := frameEverywhere.pop pops
      exact replacing (poppedEverywhere.proceed poppedEverywhere.stack)
        (Nat.le_trans poppedAt.ge (Nat.le_add_right _ _))
  | loop repeats => exact absurd repeats onceOnly
  | call calls => exact working.call inherited calls
  | finish returns => exact everywhere.returnValue frames returns
  | operator operates =>
      exact (Working.carries inherited).binaryOperator ready operates
  | invert pops pushes =>
      exact ((working.pop pops).2.push (inherited.bool _) pushes).proceeds
  | negate negates => exact (Working.carries inherited).negate ready negates
  | makeClosure makes => exact working.makeClosure inherited makes
  | setHandler registers => exact working.setHandler registers
  | perform performs => exact (Working.carries inherited).perform ready performs
  | popHandlers =>
      refine Working.proceeds
        ⟨everywhere.unwind (fun _ live => live) ?_, rfl, frame.stack, frames⟩
      exact fun handler member =>
        everywhere.handlers handler (List.mem_of_mem_drop member)
  | comment => exact working.proceeds

/-- What a step leads to, unless it repeats something. -/
theorem Everywhere.step
    (everywhere : machine.Everywhere property)
    (inherited : Value.Inherited property)
    (frames : machine.frames = frame :: below)
    {instruction : Instruction}
    (decodes : Instruction.decode frame.template.code frame.ip =
      .ok instruction)
    (onceOnly : instruction.opcode ≠ .loop)
    (steps : machine.step = .running after) :
    Proceeds property machine.limits { frame with ip := instruction.next }
      below after := by
  have fetched := everywhere.replace frames
    (@Frame.Everywhere.proceed _ _ (everywhere.newest frames)
    frame.stack instruction.next (everywhere.newest frames).stack)
  exact fetched.execute inherited rfl onceOnly (execute_eq frames decodes steps)

/-- A machine about to run a script has room for its frame. -/
theorem Everywhere.load
    (everywhere : machine.Everywhere property)
    (inherited : Value.Inherited property)
    {script : Template} {identity : Nat}
    (has : property (.function identity script))
    {start : Machine}
    (loads : machine.load script = .running start) :
    start.Everywhere property ∧
    start.frames.length ≤ start.limits.maxFrames := by
  have cleared : (machine.cleared.take 1).Everywhere property :=
    (everywhere.unwind (by simp) (by simp)).take 1
  obtain ⟨startEverywhere, same, room, callee, frames⟩ :=
    cleared.openFrame inherited
    (@Value.Inherited.closes _ inherited identity
      ⟨machine.store.unused, script, []⟩ has) (by simp)
    (load_inversion loads)
  refine ⟨startEverywhere, ?_⟩
  rw [frames, same]
  exact room

end Machine

end EffectScript
