import EffectScript.Proofs.Memory
import EffectScript.Proofs.Origin

/-!
# The memory of a machine

All values on a machine, wherever they are kept, are in one memory. An operation
that makes no list and no map only moves held values about. A new list or map
gets identities from the supply of the machine, which no held value has, so the
memory grows by it. Step by step this goes through whole runs, and from one run
of a session to the next.

While an operation is under way, some values are *in flight*: they were taken
off the operand stack and are not back yet.
-/

namespace EffectScript

variable {values others : List Value} {value : Value}

/-- Whatever memory holds the values holds this one, too. -/
def Value.Within (values : List Value) (value : Value) : Prop :=
  ∀ memory : Memory, (∀ held ∈ values, memory.holds held) → memory.holds value

namespace Value.Within

theorem of_mem (member : value ∈ values) : value.Within values :=
  fun _ held => held value member

theorem of_simple (simple : value.hasParts = false) : value.Within values :=
  fun memory _ => memory.simple simple

theorem of_isScalar (scalar : value.isScalar) : value.Within values := by
  apply of_simple
  cases value with
  | list | map => cases scalar
  | _ => rfl

theorem node {nodes : List (Node Value)}
    (within : (Value.list nodes).Within values)
    {node : Node Value}
    (member : node ∈ nodes) :
    node.value.Within values :=
  fun memory held => memory.nodes (within memory held) node member

theorem entry {identity : Nat}
    {entries : List (String × Value)}
    (within : (Value.map identity entries).Within values)
    {entry : String × Value}
    (member : entry ∈ entries) :
    entry.2.Within values :=
  fun memory held => memory.entries (within memory held) entry member

end Value.Within

/-- All values on the machine and the values in flight are in one memory, the
identities of which were taken from the supply of the machine. -/
def Machine.Coherent (machine : Machine) (values : List Value) : Prop :=
  ∃ memory : Memory, memory.Below machine.store.unused ∧
    machine.Everywhere memory.holds ∧
    ∀ value ∈ values, memory.holds value

namespace Machine.Coherent

variable {machine after : Machine}

/-- An operation that makes no list and no map keeps the memory. -/
theorem change
    (coherent : machine.Coherent values)
    (supply : after.store.unused = machine.store.unused)
    (kept : ∀ memory : Memory, machine.Everywhere memory.holds →
      (∀ value ∈ values, memory.holds value) → after.Everywhere memory.holds ∧
        ∀ value ∈ others, memory.holds value) :
    after.Coherent others := by
  obtain ⟨memory, below, everywhere, held⟩ := coherent
  exact ⟨memory, supply ▸ below, kept memory everywhere held⟩

/-- Other values are in flight. -/
theorem within
    (coherent : machine.Coherent values)
    (within : ∀ value ∈ others, value.Within values) :
    machine.Coherent others :=
  coherent.change rfl fun memory everywhere held =>
    ⟨everywhere, fun value member => within value member memory held⟩

theorem one
    (coherent : machine.Coherent values)
    (within : value.Within values) :
    machine.Coherent [value] :=
  coherent.within (List.forall_mem_singleton.2 within)

theorem landed (coherent : machine.Coherent values) : machine.Coherent [] :=
  coherent.within (List.forall_mem_nil _)

theorem take (coherent : machine.Coherent values) (count : Nat) :
    (machine.take count).Coherent values := by
  obtain ⟨memory, below, everywhere, held⟩ := coherent
  exact ⟨memory, below.mono (Nat.le_add_right _ _), everywhere.take count, held⟩

/-- The machine makes a list of new nodes in front of one that there is. -/
theorem list
    (coherent : machine.Coherent values)
    {shared : List (Node Value)} {new : List Value}
    (sharedWithin : (Value.list shared).Within values)
    (newWithin : ∀ value ∈ new, value.Within values) :
    (machine.take new.length).Coherent
      [.list (Chain.prepend machine.store.unused new shared)] := by
  obtain ⟨memory, below, everywhere, held⟩ := coherent
  obtain ⟨more, moreBelow, grows, made⟩ :=
    Memory.exists_list below (sharedWithin memory held)
    fun value member => newWithin value member memory held
  exact ⟨more, moreBelow, (everywhere.mono grows).take _,
    List.forall_mem_singleton.2 made⟩

/-- The machine makes a map. -/
theorem map
    (coherent : machine.Coherent values)
    {entries : List (String × Value)}
    (entriesWithin : ∀ entry ∈ entries, entry.2.Within values) :
    (machine.take 1).Coherent [.map machine.store.unused entries] := by
  obtain ⟨memory, below, everywhere, held⟩ := coherent
  obtain ⟨more, moreBelow, grows, made⟩ := Memory.exists_map below
    fun entry member => entriesWithin entry member memory held
  exact ⟨more, moreBelow, (everywhere.mono grows).take _,
    List.forall_mem_singleton.2 made⟩

end Machine.Coherent

/-! ## Native functions -/

theorem Native.method_supply {machine after : Machine}
    {typeName operatorName callable : Value}
    (given : Native.method machine typeName operatorName callable = .ok after) :
    after.store = machine.store := by
  obtain ⟨_, _, rest⟩ := Outcome.bind_eq_ok.1 given
  obtain ⟨_, _, rest⟩ := Outcome.bind_eq_ok.1 rest
  split at rest
  · cases rest
  · split at rest <;> cases rest
    rfl

namespace Machine.Coherent

variable {machine after : Machine} {result : Value}

theorem resume
    (coherent : machine.Coherent values)
    (resumes : machine.resume = .ok after) :
    after.Coherent values := by
  have supply : after.store = machine.store := by
    obtain ⟨_, _, rfl⟩ := resume_inversion resumes
    rfl
  exact coherent.change (supply ▸ rfl) fun memory everywhere held =>
    ⟨(everywhere.resume resumes).1, held⟩

/-- A native function gives a value that belongs to the memory. -/
theorem invoke {builtin : Builtin} {arguments : List Value}
    (coherent : machine.Coherent arguments)
    (invoked : builtin.invoke machine arguments = .ok (result, after)) :
    after.Coherent [result] := by
  have simply {result : Value} (simple : result.hasParts = false) :
      machine.Coherent [result] :=
    coherent.one (.of_simple simple)
  cases Builtin.invoke_inversion invoked with
  | print =>
      exact (simply rfl).change rfl fun memory everywhere held =>
        ⟨⟨everywhere.frames, everywhere.handlers, everywhere.globals,
          everywhere.methods, everywhere.cells⟩, held⟩
  | len counted =>
      exact coherent.one (.of_isScalar (Native.isScalar_of_len counted))
  | str | typeOf => exact simply rfl
  | list => exact coherent.list (fun memory _ => memory.empty) fun value =>
      .of_mem
  | @nth nodes _ _ member | @head nodes _ member =>
      exact coherent.one
        (@Value.Within.node _ nodes (.of_mem (by simp)) _ member)
  | tail node rest =>
      exact coherent.one fun memory held =>
        memory.rest (held (.list (node :: rest)) (by simp))
  | cons first nodes =>
      exact @Coherent.list _ _ coherent nodes [first] (.of_mem (by simp))
        (List.forall_mem_singleton.2 (.of_mem (by simp)))
  | map paired =>
      exact coherent.map fun entry member =>
        Native.pairs_mem (fun value => Value.Within.of_mem) paired entry
          (Dictionary.mem_ofEntries member)
  | put identity entries text key value =>
      refine coherent.map fun entry member => ?_
      rcases Dictionary.mem_insert member with rfl | old
      · exact .of_mem (by simp)
      · exact @Value.Within.entry _ identity entries (.of_mem (by simp)) _ old
  | get identity entries text key =>
      cases found : entries.find? text with
      | none => exact simply rfl
      | some value =>
          obtain ⟨entry, member, rfl⟩ := Dictionary.mem_of_find? found
          exact coherent.one
            (@Value.Within.entry _ identity entries
              (.of_mem (by simp)) _ member)
  | exception => exact (simply rfl).take 1
  | @method _ _ callable _ changed =>
      refine coherent.change (Native.method_supply changed ▸ rfl)
        fun memory everywhere held => ⟨?_, ?_⟩
      · exact everywhere.spare
          (Native.method_spares (held callable (by simp)) changed)
      · exact List.forall_mem_singleton.2 (memory.simple rfl)
  | resume resumes => exact coherent.resume resumes
  | listEq | mapEq => exact simply rfl

/-! ## Operations of the newest frame -/

theorem push
    (coherent : machine.Coherent (value :: values))
    (pushed : machine.push value = .ok after) :
    after.Coherent values := by
  obtain ⟨frame, below, frames, _, rfl⟩ := push_inversion pushed
  refine coherent.change rfl fun memory everywhere held => ?_
  obtain ⟨valueHeld, others⟩ := List.forall_mem_cons.1 held
  exact ⟨everywhere.replace frames ((everywhere.newest frames).given valueHeld),
    others⟩

theorem pop
    (coherent : machine.Coherent values)
    (popped : machine.pop = .ok (value, after)) :
    after.Coherent (value :: values) := by
  obtain ⟨frame, below, stack, frames, stackEq, rfl⟩ := pop_inversion popped
  refine coherent.change rfl fun memory everywhere held => ?_
  have newest := everywhere.newest frames
  obtain ⟨valueHeld, stackHeld⟩ :=
    List.forall_mem_cons.1 (stackEq ▸ newest.stack)
  exact ⟨everywhere.replace frames (newest.proceed stackHeld),
    List.forall_mem_cons.2 ⟨valueHeld, held⟩⟩

/-! ### Calls -/

/-- Boxes are cells of the store and take no identities. -/
theorem boxSlots_supply {owner : String}
    {chosen : List UInt8} {slots placed : List Value} {store boxed : Store}
    (placedEq : boxSlots owner chosen slots store = .ok (placed, boxed)) :
    boxed.unused = store.unused := by
  induction chosen generalizing slots store with
  | nil =>
      cases placedEq
      rfl
  | cons slot others inner =>
      simp only [boxSlots] at placedEq
      split at placedEq
      · exact (inner placedEq).trans rfl
      · cases placedEq

theorem openFrame {closure : Closure}
    {arguments : List Value}
    (coherent : machine.Coherent arguments)
    (opened : machine.openFrame closure arguments = .ok after) :
    after.Coherent [] := by
  obtain ⟨_, captured, slots, store, capturedEq, slotsEq, rfl⟩ :=
    openFrame_inversion opened
  refine coherent.change (boxSlots_supply slotsEq) fun memory everywhere held =>
    ⟨?_, List.forall_mem_nil _⟩
  have initial : ∀ value ∈ closure.initialSlots arguments,
      memory.holds value := by
    intro value member
    rcases List.mem_append.1 member with given | unset
    · rcases List.mem_cons.1 given with rfl | argument
      · exact memory.simple rfl
      · exact held value argument
    · rw [List.eq_of_mem_replicate unset]
      exact memory.simple rfl
  obtain ⟨slotsHeld, cellsHeld⟩ := boxSlots_forall (fun _ => memory.simple rfl)
    (placeCaptures_forall (fun _ => memory.simple rfl) initial capturedEq)
      everywhere.cells slotsEq
  refine ⟨List.forall_mem_cons.2
    ⟨⟨memory.simple rfl, List.forall_mem_nil _, slotsHeld, ?_⟩,
    everywhere.frames⟩, everywhere.handlers, everywhere.globals,
    everywhere.methods, cellsHeld⟩
  rintro link ⟨⟩

theorem callValue {callee : Value} {arguments : List Value}
    (coherent : machine.Coherent arguments)
    (called : machine.callValue callee arguments = .ok after) :
    after.Coherent [] := by
  rcases callValue_inversion called with ⟨closure, _, _, opens⟩ |
    ⟨builtin, result, invoked, _, calls, pushes⟩
  · exact coherent.openFrame opens
  · obtain ⟨_, _, invokes⟩ := Outcome.bind_eq_ok.1 calls
    exact (coherent.invoke invokes).push pushes

theorem call
    (coherent : machine.Coherent [])
    {count : Nat}
    (called : machine.call count = .ok after) :
    after.Coherent [] := by
  obtain ⟨frame, below, callee, rest, frames, parts, calls⟩ :=
    call_inversion called
  refine callValue (coherent.change (by rfl) fun memory everywhere _ => ?_)
    calls
  have newest := everywhere.newest frames
  have dropped : ∀ value ∈ frame.stack.drop count, memory.holds value :=
    fun value member => newest.stack value (List.mem_of_mem_drop member)
  rw [parts] at dropped
  exact ⟨everywhere.replace frames
    (newest.proceed (List.forall_mem_cons.1 dropped).2),
    fun value member =>
      newest.stack value (List.mem_of_mem_take (List.mem_reverse.1 member))⟩

/-! ### Operators and effects -/

/-- What an operator gives belongs to the memory. -/
theorem binary {operator : Operator}
    {left right result : Value}
    (coherent : machine.Coherent [left, right])
    (ruled : operator.binary machine.store.unused left right =
      some (.ok result)) :
    (machine.take (operator.identitiesTaken left right)).Coherent [result] := by
  rcases Operator.binary_cases ruled
    with scalar | ⟨rfl, first, second, rfl, rfl, rfl⟩
  · exact (coherent.one (.of_isScalar scalar)).take _
  · have copied : ∀ value ∈ Chain.values first,
        value.Within [.list first, .list second] := by
      intro value member
      obtain ⟨node, listed, rfl⟩ := List.mem_map.1 member
      exact @Value.Within.node _ first (.of_mem (by simp)) _ listed
    have made := coherent.list
      (@Value.Within.of_mem _ (.list second) (by simp)) copied
    rwa [Chain.values, List.length_map] at made

theorem tie
    (coherent : machine.Coherent [])
    {link : EffectLink}
    (tied : machine.tie link = .ok after) :
    after.Coherent [] := by
  obtain ⟨frame, below, frames, rfl⟩ := tie_inversion tied
  refine coherent.change rfl fun memory everywhere held => ⟨?_, held⟩
  have newest := everywhere.newest frames
  exact everywhere.replace frames
    ⟨newest.closure, newest.stack, newest.slots, fun _ _ _ _ =>
      memory.simple rfl⟩

/-- Handlers are no values with parts. -/
theorem handlers
    (coherent : machine.Coherent values)
    (handlers : List Handler) :
    ({ machine with handlers := handlers } : Machine).Coherent values :=
  coherent.change rfl fun memory everywhere held =>
    ⟨everywhere.unwind (fun _ live => live) fun _ _ => memory.simple rfl, held⟩

theorem carries : Carries Coherent (Coherent · []) where
  pop := pop
  push := push
  landed := id
  call coherent called := coherent.call called
  scalar coherent scalar := coherent.one (.of_isScalar scalar)
  binary := binary
  method coherent found := coherent.change rfl fun _ everywhere held =>
    ⟨everywhere, List.forall_mem_cons.2 ⟨everywhere.found found, held⟩⟩
  masked coherent _ := (coherent.handlers _).within
    (List.forall_mem_cons.2 ⟨.of_simple rfl, fun _ => .of_mem⟩)
  tie _ _ _ coherent tied := coherent.tie tied

theorem setHandler
    (coherent : machine.Coherent [])
    {effect : String} {distance : Nat}
    (registered : machine.setHandler effect distance = .ok after) :
    after.Coherent [] := by
  obtain ⟨_, _, _, _, pops, _, rfl⟩ := setHandler_inversion registered
  exact (coherent.pop pops).landed.handlers _

theorem abandon
    (coherent : machine.Coherent [value])
    {link : EffectLink}
    (abandoned : machine.abandon link value = .ok after) :
    after.Coherent [] := by
  have supply : after.store = machine.store := by
    obtain ⟨_, _, _, pushes⟩ := abandon_inversion abandoned
    obtain ⟨_, _, _, _, rfl⟩ := push_inversion pushes
    rfl
  exact coherent.change (supply ▸ rfl) fun memory everywhere held =>
    ⟨(everywhere.abandon (List.forall_mem_singleton.1 held) abandoned).1,
      List.forall_mem_nil _⟩

theorem returnValue
    (coherent : machine.Coherent [])
    (returned : machine.returnValue = .ok (.onward after)) :
    after.Coherent [] := by
  obtain ⟨frame, below, value, frames, stack, result⟩ :=
    returnValue_inversion returned
  have inFlight : machine.withoutNewest.Coherent [value] :=
    coherent.change rfl fun memory everywhere _ =>
      ⟨everywhere.withoutNewest, stack ▸ (everywhere.newest frames).stack⟩
  rcases result with ⟨link, completed, abandons, onward⟩ | onward | ⟨pushed,
    pushes, onward⟩
  · cases onward
    exact inFlight.abandon abandons
  · cases onward
  · cases onward
    exact inFlight.push pushes

/-! ### Locals, globals and closures -/

theorem loadHeap
    (coherent : machine.Coherent [])
    {instruction : Instruction}
    (loaded : machine.loadHeap instruction = .ok after) :
    after.Coherent [] := by
  obtain ⟨cell, pushes⟩ := loadHeap_inversion loaded
  refine push (coherent.change rfl fun memory everywhere _ => ?_) pushes
  exact ⟨everywhere,
    List.forall_mem_singleton.2 (everywhere.read (memory.simple rfl) cell)⟩

theorem storeHeap
    (coherent : machine.Coherent [])
    {instruction : Instruction}
    (stored : machine.storeHeap instruction = .ok after) :
    after.Coherent [] := by
  obtain ⟨value, popped, cell, pops, rfl⟩ := storeHeap_inversion stored
  refine (coherent.pop pops).change rfl fun memory everywhere held =>
    ⟨?_, List.forall_mem_nil _⟩
  refine ⟨everywhere.frames, everywhere.handlers, everywhere.globals,
    everywhere.methods, fun content member => ?_⟩
  rcases Array.mem_or_eq_of_mem_setIfInBounds member with old | rfl
  · exact everywhere.cells content old
  · exact List.forall_mem_singleton.1 held

theorem makeClosure
    (coherent : machine.Coherent [])
    {index : UInt8}
    (made : machine.makeClosure index = .ok after) :
    after.Coherent [] := by
  obtain ⟨_, _, _, _, _, _, _, _, pushes⟩ := makeClosure_inversion made
  exact ((coherent.take 1).one (.of_simple rfl)).push pushes

/-! ## Steps -/

/-- Executing an instruction keeps the machine coherent, if the constants of the
function have no parts. -/
theorem execute
    (coherent : machine.Coherent [])
    {frame : Frame} {below : List Frame}
    (frames : machine.frames = frame :: below)
    (constants : ∀ value ∈ frame.template.constants, value.hasParts = false)
    {instruction : Instruction}
    (executed : machine.execute instruction = .ok (.onward after)) :
    after.Coherent [] := by
  -- The value that is pushed is one that the machine holds already.
  have pushing {value : Value} {after : Machine}
      (held : ∀ memory : Memory, machine.Everywhere memory.holds →
        memory.holds value)
      (pushes : machine.push value = .ok after) : after.Coherent [] :=
    push (coherent.change rfl fun memory everywhere _ =>
      ⟨everywhere, List.forall_mem_singleton.2 (held memory everywhere)⟩) pushes
  have replacing {changed : Frame}
      (has : ∀ memory : Memory, frame.Everywhere memory.holds →
        changed.Everywhere memory.holds) :
      (machine.setTop changed).Coherent [] := by
    rw [setTop_eq frames]
    exact coherent.change rfl fun memory everywhere held =>
      ⟨everywhere.replace frames (has memory (everywhere.newest frames)), held⟩
  cases execute_inversion frames executed with
  | constant operation found pushes =>
      have plain := constants _ (List.mem_of_getElem? found)
      exact pushing (fun memory _ => memory.simple plain) pushes
  | simple plain pushes =>
      obtain rfl | ⟨truth, rfl⟩ := plain
      · exact pushing (fun memory _ => memory.simple rfl) pushes
      · exact pushing (fun memory _ => memory.simple rfl) pushes
  | loadLocal operation reads pushes =>
      exact pushing
        (fun memory everywhere => (everywhere.newest frames).slot reads) pushes
  | storeLocal operation pops stores =>
      refine replacing fun memory newest => ?_
      obtain ⟨held, poppedHeld, _⟩ := newest.pop pops
      exact (poppedHeld.setSlot held stores).1
  | loadHeap loads => exact coherent.loadHeap loads
  | storeHeap stores => exact coherent.storeHeap stores
  | loadGlobal found pushes =>
      obtain ⟨entry, member, rfl⟩ := Dictionary.mem_of_find? found
      exact pushing (fun memory everywhere => everywhere.globals entry member)
        pushes
  | storeGlobal name pops =>
      refine (coherent.pop pops).change rfl fun memory known held =>
        ⟨?_, List.forall_mem_nil _⟩
      refine ⟨known.frames, known.handlers, fun entry member => ?_,
        known.methods, known.cells⟩
      rcases Dictionary.mem_insert member with rfl | old
      · exact List.forall_mem_singleton.1 held
      · exact known.globals entry old
  | pop pops => exact (coherent.pop pops).landed
  | swap stack =>
      refine replacing fun memory newest =>
        newest.proceed fun value member => ?_
      refine newest.stack value (stack ▸ ?_)
      simp only [List.mem_cons] at member ⊢
      tauto
  | jump | loop => exact replacing fun memory newest =>
      newest.proceed newest.stack
  | fallThrough pops => exact replacing fun memory newest =>
      (newest.pop pops).2.1
  | branch pops =>
      refine replacing fun memory newest => ?_
      have poppedHeld := (newest.pop pops).2.1
      exact poppedHeld.proceed poppedHeld.stack
  | call calls => exact coherent.call calls
  | finish returns => exact coherent.returnValue returns
  | operator operates => exact carries.binaryOperator coherent operates
  | invert pops pushes =>
      exact push ((coherent.pop pops).one (.of_simple rfl)) pushes
  | negate negates => exact carries.negate coherent negates
  | makeClosure makes => exact coherent.makeClosure makes
  | setHandler registers => exact coherent.setHandler registers
  | perform performs => exact carries.perform coherent performs
  | popHandlers => exact coherent.handlers _
  | comment => exact coherent

end Machine.Coherent

/-- Constants are integers, texts and functions. -/
theorem ComesFrom.constants_simple {sources : List String}
    {template : Template}
    (comes : ComesFrom sources template) :
    ∀ value ∈ template.constants, value.hasParts = false := by
  obtain ⟨source, _, file, script, compiled, contains⟩ := comes
  obtain ⟨_, _, describes⟩ := compileSource_describes compiled contains
  intro value member
  have pooled := describes.constants value member
  cases value with
  | list | map => cases pooled
  | _ => rfl

namespace Machine

variable {machine after : Machine} {sources : List String}

/-- The machine that a step leads to is coherent. -/
def CoherentAfter : Step → Prop
  | .running after | .finished _ after | .failed _ after => after.Coherent []

namespace Coherent

theorem cleared (coherent : machine.Coherent values) :
    machine.cleared.Coherent values :=
  coherent.change rfl fun _ everywhere held => ⟨everywhere.cleared, held⟩

/-- A step of a machine that calls functions of some source texts keeps it
coherent. -/
theorem step
    (coherent : machine.Coherent [])
    (known : machine.Everywhere (Value.CallsOnly (ComesFrom sources))) :
    CoherentAfter machine.step := by
  unfold Machine.step
  split
  next => exact coherent.cleared
  next instruction fetched fetches =>
    have follows := fetched.execute_untraced instruction
    have fetchedCoherent : fetched.Coherent [] := by
      obtain ⟨_, _, _, _, rfl⟩ := fetch_inversion fetches
      exact coherent.change rfl fun _ everywhere held =>
        ⟨everywhere.fetched fetches, held⟩
    have fetchedKnown := known.fetched fetches
    split
    next next executed =>
      obtain ⟨frame, below, _, _, rfl⟩ := fetch_inversion fetches
      refine fetchedCoherent.execute rfl ?_ executed
      cases (fetchedKnown.newest rfl).closure with
      | closure comes => exact comes.constants_simple
    next value final executed =>
      rw [executed] at follows
      obtain ⟨handlers, _, rfl⟩ := follows
      exact fetchedCoherent.change rfl fun memory everywhere held =>
        ⟨everywhere.unwind (fun _ => List.mem_of_mem_tail) fun _ _ =>
          memory.simple rfl, held⟩
    next => exact fetchedCoherent.cleared

/-! ## Runs -/

theorem reached
    (coherent : machine.Coherent [])
    (known : machine.Everywhere (Value.CallsOnly (ComesFrom sources)))
    {count : Nat}
    (reaches : machine.reached count = some after) :
    after.Coherent [] := by
  refine reached_induction (Coherent · []) coherent ?_ reaches
  intro _ before next reachesBefore beforeCoherent steps
  have afterStep := beforeCoherent.step
    (known.reached (inherited_comesFrom sources) reachesBefore)
  rw [steps] at afterStep
  exact afterStep

theorem run
    (coherent : machine.Coherent [])
    (known : machine.Everywhere (Value.CallsOnly (ComesFrom sources)))
    {bound : Nat} {ending : Ending}
    (ended : machine.run bound = some ending) :
    ending.machine.Coherent [] := by
  obtain ⟨count, last, reaches, ends⟩ := exists_last ended
  have afterStep :=
    (coherent.reached known reaches).step
      (known.reached (inherited_comesFrom sources) reaches)
  rcases ends with ⟨_, _, ends⟩ | ⟨_, _, ends⟩ <;>
  · rw [ends] at afterStep
    exact afterStep

theorem load
    (coherent : machine.Coherent [])
    {script : Template} {start : Machine}
    (loads : machine.load script = .running start) :
    start.Coherent [] :=
  (coherent.cleared.take 1).openFrame (load_inversion loads)

theorem interpret
    (coherent : machine.Coherent [])
    (known : machine.Everywhere (Value.CallsOnly (ComesFrom sources)))
    {script : Template}
    (comes : ComesFrom sources script)
    {bound : Nat} {ending : Ending}
    (ended : machine.interpret bound script = some ending) :
    ending.machine.Coherent [] := by
  rcases interpret_cases ended with ⟨start, loads, ended⟩ | ⟨failure, _, rfl⟩
  · have startKnown := (known.load (inherited_comesFrom sources)
      (@Value.CallsOnly.function _ 0 _ comes) loads).1
    exact (coherent.load loads).run startKnown ended
  · exact coherent.cleared

end Coherent

/-! ## Sessions -/

variable {limits : Limits} {outlet : Outlet}

/-- A fresh machine has neither lists nor maps. -/
theorem coherent_fresh (limits : Limits) (outlet : Outlet) :
    (fresh limits outlet).Coherent [] :=
  ⟨.initial, Memory.initial_below _,
    everywhere_fresh (fun _ => .inl rfl) limits outlet, List.forall_mem_nil _⟩

/-- The machine of a session is coherent, whatever was run on it. -/
theorem SessionOf.coherent (session : SessionOf limits outlet sources machine) :
    machine.Coherent [] := by
  induction session with
  | fresh => exact coherent_fresh limits outlet
  | @runs sources machine session bound source file inner =>
      have known := session.everywhere.comesFrom_cons source
      exact runSource_induction (Coherent · []) inner inner.cleared
          fun script ending compiled ended =>
        inner.interpret known (comesFrom_script compiled) ended

/-- Every machine that a run of a session reaches is coherent. -/
theorem SessionOf.coherent_reached
    (session : SessionOf limits outlet sources machine)
    {source file : String} {script : Template}
    (compiled : compileSource source file = .ok script)
    {start later : Machine}
    (loads : machine.load script = .running start)
    {count : Nat}
    (reaches : start.reached count = some later) :
    later.Coherent [] := by
  have started := ((session.everywhere.comesFrom_cons source).load
    (inherited_comesFrom (source :: sources))
    (@Value.CallsOnly.function _ 0 _ (comesFrom_script compiled)) loads).1
  exact (session.coherent.load loads).reached started reaches

end Machine

end EffectScript
