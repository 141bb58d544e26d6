import EffectScript.Proofs.Effects
import EffectScript.Proofs.Lockstep

/-!
# Running in unison

Every instruction does the same to twin machines: it leads to twins again, ends
both runs with twins, or fails in the same way. Where the one code pushes and
pops a result that the other one does not have, the first machine goes on alone
for two steps. So whenever a run of the first machine ends, other than in a
fault that only its longer code can cause, a run of the second one ends in the
same way.
-/

namespace EffectScript

open Outcome Activation

/-! ## Choosing a handler -/

section Handlers

variable {alignments : List Alignment} {handler other partner another : Handler}
  {handlers others : List Handler}

/-- Two handlers are of one attempt in both machines or in none. -/
theorem sameGroup_eq
    (twin : Handler.Twin alignments handler partner)
    (twins : Handler.Twin alignments other another)
    (live : handler.frame < alignments.length) :
    partner.sameGroup another = handler.sameGroup other := by
  unfold Handler.sameGroup
  rw [twin.frame, twins.frame]
  by_cases frames : handler.frame = other.frame
  · obtain ⟨alignment, found⟩ := alignmentAt?_isSome live
    have agree := (twin.target alignment found).eq_iff
      (twins.target alignment (frames ▸ found))
    rw [frames, beq_self_eq_true, Bool.true_and, Bool.true_and]
    exact Bool.eq_iff_iff.2 (by simpa using agree.symm)
  · rw [beq_false_of_ne frames, Bool.false_and, Bool.false_and]

/-- Dispatches that choose twins. -/
structure DispatchTwin (alignments : List Alignment) (first second : Dispatch) :
    Prop where
  handler : Handler.Twin alignments first.handler second.handler
  stash : List.Forall₂ (Handler.Twin alignments) first.stash second.stash
  staying : List.Forall₂ (Handler.Twin alignments) first.staying second.staying

theorem forall₂_takeWhile {α β : Type}
    {related : α → β → Prop} {first : List α} {second : List β}
    {holds : α → Bool} {alike : β → Bool}
    (all : List.Forall₂ related first second)
    (agree : ∀ entry partner, related entry partner →
      holds entry = alike partner) :
    List.Forall₂ related (first.takeWhile holds) (second.takeWhile alike) := by
  induction all with
  | nil => exact .nil
  | cons head tail inner =>
      simp only [List.takeWhile_cons, agree _ _ head]
      split
      · exact .cons head inner
      · exact .nil

/-- The newest handlers for an effect are twins. -/
theorem find?_twin
    (effect : String)
    (all : List.Forall₂ (Handler.Twin alignments) handlers others)
    (live : ∀ handler ∈ handlers, handler.frame < alignments.length) :
    Option.Rel (DispatchTwin alignments) (Dispatch.find? effect handlers)
      (Dispatch.find? effect others) := by
  induction all with
  | nil => exact .none
  | @cons handler partner older rest head tail inner =>
      have agree (entry found : Handler)
          (twins : Handler.Twin alignments entry found) :
          handler.sameGroup entry = partner.sameGroup found :=
        (sameGroup_eq head twins (live handler List.mem_cons_self)).symm
      simp only [Dispatch.find?, head.effect]
      split
      · exact .some ⟨head, .cons head (forall₂_takeWhile tail agree),
          forall₂_dropWhile tail agree⟩
      · rcases rel_cases
            (inner fun entry member =>
              live entry (List.mem_cons_of_mem _ member)) with
          ⟨held, there⟩ | ⟨dispatch, found, held, there, twins⟩
        · rw [held, there]
          exact .none
        · rw [held, there]
          exact .some ⟨twins.handler, .cons head twins.stash, twins.staying⟩

end Handlers

/-- The only expected fault that is excused is a full operand stack. -/
theorem Failure.Expected.not_excused {failure : Failure}
    (expected : failure.Expected)
    (room : ∀ limit, failure ≠ .fault (.stackOverflow limit)) :
    ¬ failure.Excused := by
  cases failure with
  | exception raised => exact id
  | unhandled effect trace => exact id
  | fault fault =>
      rcases expected.overflow with ⟨limit, rfl⟩ | ⟨limit, rfl⟩
      · exact id
      · exact (room limit rfl).elim

namespace Machine

variable {strict : Bool} {alignment : Alignment}
    {older alignments : List Alignment} {first second : Machine}
    {frame other : Frame} {below beneath : List Frame} {value partner : Value}

/-! ## Effects -/

/-- Registering twins whose attempts end where the codes meet. -/
theorem Twin.setHandler
    (twin : Twin true (alignment :: older) first second)
    (frames : first.frames = frame :: below)
    (others : second.frames = other :: beneath)
    (effect : String)
    {far near : Nat}
    (land : alignment.Land (frame.ip + far) (other.ip + near)) :
    Tracks Onward (first.setHandler effect far)
      (second.setHandler effect near) := by
  unfold Machine.setHandler
  refine twin.pop_bind frames others
    fun value partner stack remaining values stackTwins => ?_
  have popped := twin.withStack frames others stackTwins
  obtain ⟨framesLength, othersLength⟩ := popped.frames.length
  have index : below.length = older.length := Nat.succ.inj framesLength
  have position : beneath.length = older.length := Nat.succ.inj othersLength
  simp only [Machine.top, ok_bind]
  cases values with
  | @closure identity template another boxes templates =>
      have registered : Handler.Twin (alignment :: older)
          ⟨effect, ⟨identity, template, boxes⟩, below.length, stack.length,
            frame.ip + far⟩
          ⟨effect, ⟨identity, another, boxes⟩, beneath.length, remaining.length,
            other.ip + near⟩ := by
        refine ⟨rfl, ⟨rfl, rfl, templates⟩, position.trans index.symm,
          stackTwins.length_eq.symm, ?_⟩
        intro owner found
        rw [index, alignmentAt?_newest] at found
        cases found
        exact land
      exact .ok ⟨_, { popped.relax with
        handlers := .cons registered twin.handlers
        live := (absurd · Bool.false_ne_true) }⟩
  | _ => exact .error _

theorem Twin.tie {link another : EffectLink}
    (twin : Twin false (alignment :: older) first second)
    (links : EffectLink.Twin older link another) :
    Tracks Onward (first.tie link) (second.tie another) := by
  obtain ⟨frame, below, other, beneath, frames, others⟩ := twin.exists_newest
  obtain ⟨newest, _, _⟩ := twin.newest frames others
  unfold Machine.tie
  have tied : Frame.Twin alignment older { frame with link := some link }
      { other with link := some another } := { newest with link := .some links }
  rw [top_eq frames, top_eq others, ok_bind, ok_bind, setTop_eq frames,
    setTop_eq others]
  exact .ok
    (twin.replace frames others tied (absurd · Bool.false_ne_true)).onward

/-- Performing an effect calls twins. -/
theorem Twin.perform
    (twin : Twin true (alignment :: older) first second)
    (frames : first.frames = frame :: below)
    (others : second.frames = other :: beneath)
    (effect : String) :
    Tracks Onward (first.perform effect) (second.perform effect) := by
  unfold Machine.perform
  refine twin.pop_bind frames others
    fun payload partner stack remaining payloads stackTwins => ?_
  have popped := twin.withStack frames others stackTwins
  obtain ⟨framesLength, othersLength⟩ := popped.frames.length
  rcases rel_cases (find?_twin effect twin.handlers (twin.live rfl)) with
    ⟨held, there⟩ | ⟨dispatch, another, held, there, dispatches⟩
  · simp only [held, there]
    exact .error _
  · simp only [held, there]
    obtain ⟨newer, group, divided, _, _, _⟩ := Divided.of_find? held
    have live : dispatch.handler.frame < (alignment :: older).length :=
      twin.live rfl _ (by rw [divided.split]; simp)
    obtain ⟨owner, owned⟩ := alignmentAt?_isSome live
    have masked : Twin true (alignment :: older)
        { first with
          frames := { frame with stack := stack } :: below
          handlers := dispatch.staying }
        { second with
          frames := { other with stack := remaining } :: beneath
          handlers := another.staying } :=
      { popped with
        handlers := dispatches.staying
        live := fun _ handler member => twin.live rfl handler
          (by rw [divided.split]; simp [member]) }
    have closures := Value.Twin.closure_iff.2
      ⟨_, rfl, dispatches.handler.closure⟩
    refine masked.push_bind rfl rfl ?_
    have withHandler := masked.withStack rfl rfl (.cons closures stackTwins)
    refine withHandler.push_bind rfl rfl ?_
    rw [show 1 = [payload].length from rfl, call_eq rfl rfl,
      show [payload].length = [partner].length from rfl, call_eq rfl rfl]
    refine (masked.callClosure dispatches.handler.closure
      (.cons payloads .nil)).bind ?_
    rintro opened calling ⟨entered, openedTwin⟩
    refine openedTwin.tie
      ⟨?_, dispatches.handler.frame, dispatches.handler.depth,
      dispatches.staying.length_eq.symm, ?_,
      ⟨owner, owned, dispatches.handler.target owner owned⟩, dispatches.stash⟩
    · simp only [Machine.topIndex, framesLength, othersLength]
    · simp only [Machine.topIndex, framesLength]
      rfl

/-- Completing twin attempts with twins. -/
theorem Twin.abandon {link another : EffectLink}
    (twin : Twin strict alignments first second)
    (links : EffectLink.Twin alignments link another)
    (values : value.Twin partner) :
    Tracks Onward (first.abandon link value)
      (second.abandon another partner) := by
  obtain ⟨alignment, found, land⟩ := links.target
  obtain ⟨older, oldestEq, _⟩ := oldest_succ_eq_cons found
  have unwound : Twin false (alignment :: older)
      { first with
        frames := oldest (link.handlerFrame + 1) first.frames
        handlers := oldest link.groupStart first.handlers }
      { second with
        frames := oldest (another.handlerFrame + 1) second.frames
        handlers := oldest another.groupStart second.handlers } := by
    rw [← oldestEq, links.handlerFrame, links.groupStart]
    exact { twin.relax with
      frames := twin.relax.frames.oldest _
      handlers := (forall₂_oldest twin.handlers _).imp fun _ _ handlers =>
        handlers.oldest _
      live := (absurd · Bool.false_ne_true) }
  obtain ⟨frame, below, other, beneath, frames, others⟩ := unwound.exists_newest
  obtain ⟨newest, _, _⟩ := unwound.newest frames others
  unfold Machine.abandon
  simp only [top_eq frames, top_eq others, ok_bind, setTop_eq frames,
    setTop_eq others, links.depth]
  have completed : Frame.Twin alignment older
      { frame with stack := oldest link.depth frame.stack, ip := link.target }
      { other with stack := oldest link.depth other.stack, ip :=
        another.target } :=
    { newest with stack :=
      forall₂_oldest newest.stack link.depth, meet := land.meet }
  exact
    ((unwound.replace frames others completed
      (absurd · Bool.false_ne_true)).push values).imp fun _ _ => Twin.onward

/-! ## Instructions -/

/-- Twin machines that go on, or twin values that end both runs. -/
def FlowTwin : Flow → Flow → Prop
  | .onward after, .onward other => after.Onward other
  | .finished value final, .finished partner other => value.Twin partner ∧
      final.SameWorld other
  | _, _ => False

theorem onward_tracks
    {computation another : Except Failure Machine}
    (tracks : Tracks Onward computation another) :
    Tracks FlowTwin (computation >>= fun after => pure (.onward after))
      (another >>= fun after => pure (.onward after)) :=
  tracks.bind fun _ _ onward => .ok onward

/-- Returning twins from twin frames. -/
theorem Twin.returnValue
    (twin : Twin true (alignment :: older) first second)
    (frames : first.frames = frame :: below)
    (others : second.frames = other :: beneath) :
    Tracks FlowTwin first.returnValue second.returnValue := by
  obtain ⟨newest, _, rest⟩ := twin.newest frames others
  obtain ⟨belowLength, beneathLength⟩ := rest.length
  have stackTwins := newest.stack
  unfold Machine.returnValue
  rw [top_eq frames, top_eq others, ok_bind, ok_bind, frames, others]
  simp only [List.tail_cons]
  cases held : frame.stack with
  | nil => exact .inl trivial
  | cons value stack =>
      cases stack with
      | cons second stack => exact .inl trivial
      | nil =>
          rw [held] at stackTwins
          obtain ⟨_, partner, same, there, values⟩ := forall₂_one stackTwins rfl
          cases same
          have returned : Twin false older
              { first with
                frames := below
                handlers := first.handlers.dropWhile fun handler =>
                  below.length ≤ handler.frame }
              { second with
                frames := beneath
                handlers := second.handlers.dropWhile fun handler =>
                  beneath.length ≤ handler.frame } := { twin.relax with
              frames := rest.relax false
              handlers := by
                refine (forall₂_dropWhile twin.handlers ?_).imp
                  fun _ _ handlers => handlers.pop
                intro handler another handlers
                rw [handlers.frame, belowLength, beneathLength]
              live := (absurd · Bool.false_ne_true) }
          simp only [there]
          rcases rel_cases newest.link
            with ⟨unlinked, free⟩ | ⟨link, another, linked, tied, links⟩
          · simp only [unlinked, free]
            cases rest with
            | nil => exact .ok ⟨values, returned.toSameWorld⟩
            | cons => exact onward_tracks ((returned.push values).imp fun _ _ =>
                Twin.onward)
          · simp only [linked, tied]
            exact onward_tracks (returned.abandon links values)

theorem captureBoxes_twin
    (newest : Frame.Twin alignment older frame other)
    (slots : List UInt8) :
    Tracks (fun boxes partners => partners = boxes) (captureBoxes frame slots)
      (captureBoxes other slots) := by
  induction slots with
  | nil => exact .ok rfl
  | cons slot slots inner =>
      unfold captureBoxes
      refine (slot_twin newest slot).bind fun value partner values => ?_
      cases values with
      | box cell => exact inner.bind fun boxes partners
          same => .ok (congrArg (cell :: ·) same)
      | _ => exact .inl trivial

/-- Closures of twins are twins. -/
theorem Twin.makeClosure
    (twin : Twin true (alignment :: older) first second)
    (frames : first.frames = frame :: below)
    (others : second.frames = other :: beneath)
    (index : UInt8) :
    Tracks Onward (first.makeClosure index) (second.makeClosure index) := by
  obtain ⟨newest, _, _⟩ := twin.newest frames others
  unfold Machine.makeClosure
  rw [top_eq frames, top_eq others, ok_bind, ok_bind]
  have constants : Option.Rel Value.Twin (frame.template.constant? index)
      (other.template.constant? index) :=
        constant?_twin newest.closure.templates index
  rcases rel_cases constants
    with ⟨held, there⟩ | ⟨value, partner, held, there, values⟩
  · rw [held, there]
    exact .inl trivial
  · rw [held, there]
    cases values with
    | function identity templates =>
        simp only [templates.alike.capturesOuter]
        refine (captureBoxes_twin newest _).bind fun boxes partners same => ?_
        rw [same, twin.store.unused]
        exact ((twin.take 1).push (.closure _ _ templates)).imp
          fun _ _ => Twin.onward
    | _ => exact .inl trivial

theorem Twin.loadHeap
    (twin : Twin true (alignment :: older) first second)
    (frames : first.frames = frame :: below)
    (others : second.frames = other :: beneath)
    {instruction another : Instruction}
    (byte : another.byte = instruction.byte) :
    Tracks Onward (first.loadHeap instruction) (second.loadHeap another) := by
  obtain ⟨newest, _, _⟩ := twin.newest frames others
  unfold Machine.loadHeap
  rw [top_eq frames, top_eq others, ok_bind, ok_bind, byte]
  refine (slot_twin newest _).bind fun value partner values => ?_
  cases values with
  | box cell => exact (twin.push (twin.store.read cell)).imp fun _ _ =>
      Twin.onward
  | _ => exact .inl trivial

theorem Twin.storeHeap
    (twin : Twin true (alignment :: older) first second)
    (frames : first.frames = frame :: below)
    (others : second.frames = other :: beneath)
    {instruction another : Instruction}
    (byte : another.byte = instruction.byte) :
    Tracks Onward (first.storeHeap instruction) (second.storeHeap another) := by
  unfold Machine.storeHeap
  refine twin.pop_bind frames others
    fun value partner stack remaining values stackTwins => ?_
  have popped := twin.withStack frames others stackTwins
  obtain ⟨newest, _, _⟩ := popped.newest rfl rfl
  simp only [Machine.top, ok_bind, byte]
  refine (slot_twin newest _).bind fun boxed holder boxes => ?_
  cases boxes with
  | box cell =>
      exact .ok ⟨_, { popped.relax with store := twin.store.write cell values }⟩
  | _ => exact .inl trivial

theorem framePop_twin (newest : Frame.Twin alignment older frame other) :
    Tracks (fun popped partner => popped.1.Twin partner.1 ∧
        Frame.Twin alignment older popped.2 partner.2 ∧ popped.2.ip = frame.ip ∧
        partner.2.ip = other.ip) frame.pop other.pop := by
  have stackTwins := newest.stack
  unfold Frame.pop
  cases held : frame.stack with
  | nil => exact .inl trivial
  | cons value stack =>
      cases there : other.stack with
      | nil =>
          rw [held, there] at stackTwins
          cases stackTwins
      | cons partner remaining =>
          rw [held, there] at stackTwins
          cases stackTwins with
          | cons values rests =>
              exact .ok ⟨values, { newest with stack := rests }, rfl, rfl⟩

/-- Every instruction does the same to twins. -/
theorem Twin.execute
    (twin : Twin true (alignment :: older) first second)
    (frames : first.frames = frame :: below)
    (others : second.frames = other :: beneath)
    {instruction partner : Instruction}
    (pairs : instruction.Pairs alignment partner)
    (here : frame.ip = instruction.next)
    (there : other.ip = partner.next) :
    Tracks FlowTwin (first.execute instruction) (second.execute partner) := by
  obtain ⟨newest, _, _⟩ := twin.newest frames others
  have alike := newest.closure.templates.alike
  have byte
      (onward : instruction.opcode ≠ .jump ∧ instruction.opcode ≠ .jumpIfFalse ∧
      instruction.opcode ≠ .loop) : partner.byte = instruction.byte :=
    pairs.byte onward.1 onward.2.1 onward.2.2
  have pushes {value another : Value} (values : value.Twin another) :
      Tracks FlowTwin (first.push value >>= fun after => pure (.onward after))
        (second.push another >>= fun after => pure (.onward after)) :=
    onward_tracks ((twin.push values).imp fun _ _ => Twin.onward)
  -- The newest frames may change in any way as long as the codes still meet.
  have sets {changed another : Frame}
      (frameTwin : Frame.Twin alignment older changed another) :
      Tracks FlowTwin (.ok (.onward (first.setTop changed)))
        (.ok (.onward (second.setTop another))) := by
    rw [setTop_eq frames, setTop_eq others]
    exact .ok
      (twin.relax.replace frames others frameTwin
        (absurd · Bool.false_ne_true)).onward
  have applies (operator : Operator) :
      Tracks FlowTwin
        (first.binaryOperator operator >>= fun after => pure (.onward after))
        (second.binaryOperator operator >>= fun after =>
          pure (.onward after)) :=
    onward_tracks (twin.binaryOperator frames others operator)
  unfold Machine.execute
  rw [top_eq frames, top_eq others, ok_bind, ok_bind]
  simp only [pairs.opcode]
  cases operation : instruction.opcode with
  | loadConst =>
      have constants : Option.Rel Value.Twin
          (frame.template.constant? instruction.byte)
          (other.template.constant? instruction.byte) :=
        constant?_twin newest.closure.templates _
      simp only [byte (by rw [operation]; decide)]
      rcases rel_cases constants
        with ⟨held, found⟩ | ⟨value, another, held, found, values⟩
      · simp only [held, found]
        exact .inl trivial
      · simp only [held, found]
        exact pushes values
  | pushNil => exact pushes .nil
  | pushTrue => exact pushes (.bool true)
  | pushFalse => exact pushes (.bool false)
  | loadLocal =>
      simp only [byte (by rw [operation]; decide)]
      exact (slot_twin newest _).bind fun value another values => pushes values
  | storeLocal =>
      simp only [byte (by rw [operation]; decide)]
      refine (framePop_twin newest).bind ?_
      rintro ⟨value, popped⟩ ⟨another, rest⟩ ⟨values, frameTwin, _⟩
      exact (setSlot_twin frameTwin _ values).bind fun _ _ stored => sets stored
  | loadHeap =>
      exact onward_tracks
        (twin.loadHeap frames others (byte (by rw [operation]; decide)))
  | storeHeap =>
      exact onward_tracks
        (twin.storeHeap frames others (byte (by rw [operation]; decide)))
  | loadGlobal =>
      simp only [byte (by rw [operation]; decide)]
      refine (operandName_twin alike _).bind fun name another same => ?_
      subst same
      rcases rel_cases (Dictionary.find?_twin twin.globals another) with
        ⟨held, found⟩ | ⟨value, partner, held, found, values⟩
      · simp only [held, found]
        exact .error _
      · simp only [held, found]
        exact pushes values
  | storeGlobal =>
      simp only [byte (by rw [operation]; decide)]
      refine (operandName_twin alike _).bind fun name another same => ?_
      subst same
      refine twin.pop_bind frames others
        fun value partner stack remaining values stackTwins => ?_
      exact .ok ⟨_, { (twin.withStack frames others stackTwins).relax with
        globals := Dictionary.insert_twin twin.globals another values }⟩
  | pop =>
      refine twin.pop_bind frames others
        fun value partner stack remaining values stackTwins => ?_
      exact .ok (twin.withStack frames others stackTwins).onward
  | swap =>
      have stackTwins := newest.stack
      rcases held : frame.stack with _ | ⟨top, _ | ⟨next, rest⟩⟩
      · exact .inl trivial
      · exact .inl trivial
      · rw [held] at stackTwins
        obtain ⟨upper, remaining, tops, remainingTwin, found⟩ :=
          List.forall₂_cons_left_iff.1 stackTwins
        obtain ⟨lower, stack, nexts, rests, rfl⟩ :=
          List.forall₂_cons_left_iff.1 remainingTwin
        simp only [found]
        exact sets { newest with stack := .cons nexts (.cons tops rests) }
  | jump =>
      refine sets { newest with meet := ?_ }
      rw [here, there]
      exact pairs.jump (.inl operation)
  | jumpIfFalse =>
      refine (framePop_twin newest).bind ?_
      rintro ⟨condition, popped⟩ ⟨another, rest⟩
        ⟨conditions, frameTwin, poppedIp, restIp⟩
      simp only [conditions.isTruthy_eq]
      split
      · exact sets frameTwin
      · refine sets { frameTwin with meet := ?_ }
        rw [show popped.ip = _ from poppedIp.trans here,
          show rest.ip = _ from restIp.trans there]
        exact pairs.jump (.inr operation)
  | loop =>
      by_cases inside : instruction.short ≤ frame.ip
      · obtain ⟨within, meet⟩ := pairs.loop operation (here ▸ inside)
        rw [← there] at within
        simp only [inside, within, if_true]
        refine sets { newest with meet := ?_ }
        rw [here, there]
        exact meet
      · simp only [inside, if_false]
        exact .inl trivial
  | call =>
      simp only [byte (by rw [operation]; decide)]
      exact onward_tracks (twin.call frames others _)
  | «return» => exact twin.returnValue frames others
  | add => exact applies .add
  | sub => exact applies .sub
  | mul => exact applies .mul
  | div => exact applies .div
  | eq => exact applies .eq
  | lt => exact applies .lt
  | gt => exact applies .gt
  | not =>
      refine twin.pop_bind frames others
        fun value partner stack remaining values stackTwins => ?_
      simp only [values.isTruthy_eq]
      exact onward_tracks
        (((twin.withStack frames others stackTwins).push (.bool _)).imp
        fun _ _ => Twin.onward)
  | neg => exact onward_tracks (twin.negate frames others)
  | makeClosure =>
      simp only [byte (by rw [operation]; decide)]
      exact onward_tracks (twin.makeClosure frames others _)
  | setHandler =>
      simp only [byte (by rw [operation]; decide)]
      refine (operandName_twin alike _).bind fun name another same => ?_
      subst same
      refine onward_tracks (twin.setHandler frames others another ?_)
      rw [here, there]
      exact pairs.handler operation
  | perform =>
      simp only [byte (by rw [operation]; decide)]
      refine (operandName_twin alike _).bind fun name another same => ?_
      subst same
      exact onward_tracks (twin.perform frames others another)
  | popHandlers =>
      simp only [byte (by rw [operation]; decide)]
      exact .ok ⟨_, { twin.relax with
        handlers := List.forall₂_drop _ twin.handlers
        live := (absurd · Bool.false_ne_true) }⟩
  | comment => exact .ok twin.onward

/-! ## Steps -/

/-- Behind shared instructions the machines are strict. -/
theorem Twin.fetched {instruction partner : Instruction}
    (twin : Twin false (alignment :: older) first second)
    (frames : first.frames = frame :: below)
    (others : second.frames = other :: beneath)
    (shares : Template.Shares alignment frame.template other.template other.ip
      instruction partner)
    (live : ∀ handler ∈ first.handlers,
      handler.frame < (alignment :: older).length) :
    Twin true (alignment :: older)
      { first with frames := { frame with ip := instruction.next } :: below }
      { second with frames :=
        { other with ip := partner.next } :: beneath } := by
  obtain ⟨newest, _, rest⟩ := twin.newest frames others
  have alike := newest.closure.templates.alike
  refine { twin with
    frames := .cons { newest with meet := shares.pairs.next } (fun _ => ?_) rest
    live := fun _ => live }
  simp only [Frame.traceEntry, Frame.template, TraceEntry.mk.injEq]
  exact ⟨alike.name, shares.line⟩

/-- A result that is dropped is pushed and popped in two steps, unless there is
no room for it. -/
theorem step_of_drops {machine : Machine} {place : Nat}
    (frames : machine.frames = frame :: below)
    (drops : Template.Drops alignment frame.template frame.ip place) :
    (∃ limit final, machine.step = .failed
        (.fault (.stackOverflow limit)) final) ∨
      ∃ pushed, machine.step = .running pushed ∧
        pushed.step = .running
          { machine with frames :=
            { frame with ip := frame.ip + 2 } :: below } := by
  by_cases room : frame.stack.length < machine.limits.stackCapacity
  · let pushed : Machine := { machine with
      frames := { frame with ip := frame.ip + 1, stack :=
        .nil :: frame.stack } :: below }
    refine .inr ⟨pushed, ?_, ?_⟩
    · unfold Machine.step
      rw [fetch_eq frames drops.push]
      simp [pushed, Machine.execute, Machine.push, Machine.top, Frame.push,
        room, Machine.setTop, Instruction.next, Opcode.size,
        Opcode.operandCount]
    · have fetched : pushed.fetch = _ := fetch_eq rfl drops.pop
      unfold Machine.step
      rw [fetched]
      simp [pushed, Machine.execute, Machine.pop, Machine.top, Frame.pop,
        Machine.setTop, Instruction.next, Opcode.size, Opcode.operandCount]
  · refine .inl ⟨machine.limits.stackCapacity, machine.cleared, ?_⟩
    unfold Machine.step
    rw [fetch_eq frames drops.push]
    simp [Machine.execute, Machine.push, Machine.top, Frame.push, room,
      Machine.fail, Failure.withCalls, Machine.cleared]

/-- How two runs end alike. -/
structure Ending.Twin (first second : Ending) : Prop where
  result : Agree Value.Twin first.result second.result
  world : first.machine.SameWorld second.machine

/-- What steps of twins lead to: twins, or the same end of both runs. -/
def StepTwin : Step → Step → Prop
  | .running next, .running other => next.Onward other
  | .finished value final, .finished partner other => value.Twin partner ∧
      final.SameWorld other
  | .failed failure final, .failed another other => another = failure ∧
      final.SameWorld other
  | _, _ => False

/-- Where both codes have an instruction, the machines make a step in unison. -/
theorem Twin.step {instruction partner : Instruction}
    {activation : Activation Handler} {activations : List (Activation Handler)}
    (twin : Twin false (alignment :: older) first second)
    (sound : first.Sound (activation :: activations))
    (frames : first.frames = frame :: below)
    (others : second.frames = other :: beneath)
    (decoded : Instruction.decode frame.template.code frame.ip =
      .ok instruction)
    (shares : Template.Shares alignment frame.template other.template other.ip
      instruction partner)
    (room : ∀ limit final,
      first.step ≠ .failed (.fault (.stackOverflow limit)) final) :
    StepTwin first.step second.step := by
  obtain ⟨_, _, outcome⟩ := sound.step
  have live : ∀ handler ∈ first.handlers, handler.frame <
      (alignment :: older).length := by
    intro handler member
    rw [sound.handlers] at member
    have inside := sound.stacked.frame_lt member
    rwa [← twin.frames.length.1, sound.frames, List.length_map]
  have fetched := twin.fetched frames others shares live
  have tracks := fetched.execute rfl rfl shares.pairs rfl rfl
  unfold Machine.step at outcome room ⊢
  rw [fetch_eq frames decoded] at outcome room ⊢
  rw [fetch_eq others shares.decode]
  simp only at outcome room ⊢
  generalize Machine.execute _ instruction = executed at tracks outcome room ⊢
  cases executed with
  | ok flow =>
      obtain ⟨another, succeeds, flows⟩ := tracks
      rw [succeeds]
      cases flow <;> cases another <;> exact flows
  | error failure =>
      have unexcused := Failure.Expected.not_excused outcome.1 fun limit same =>
        room limit _ (congrArg (fun failure => Step.failed failure _) same)
      rw [Failure.excused_withCalls] at unexcused
      rcases tracks with excused | fails
      · exact (unexcused excused).elim
      · rw [fails]
        have trace := fetched.frames.trace_eq
        refine ⟨?_, ?_⟩
        · simp only [Machine.trace]
          rw [trace]
        · exact { fetched with }

/-! ## Runs -/

/-- The run ended because an operand stack was full. -/
def Ending.StackOverflowed (ending : Ending) : Prop :=
  ∃ limit, ending.result = .error (.fault (.stackOverflow limit))

/-- Runs that make their first steps in unison end alike if the runs after these
steps do. -/
theorem StepTwin.run {bound : Nat} {ending : Ending}
    (steps : StepTwin first.step second.step)
    (ended : first.run (bound + 1) = some ending)
    (after : ∀ next another, first.step = .running next → next.Onward another →
      next.run bound = some ending → ∃ more other,
        another.run more = some other ∧ ending.Twin other) :
    ∃ more other, second.run more = some other ∧ ending.Twin other := by
  simp only [Machine.run] at ended
  cases made : first.step with
  | running next =>
      rw [made] at steps ended
      cases stepped : second.step with
      | running another =>
          rw [stepped] at steps
          obtain ⟨more, other, endsAlike, endings⟩ :=
            after next another made steps ended
          exact ⟨more + 1, other, by
            rw [run_of_step stepped, endsAlike], endings⟩
      | finished value final => exact (stepped ▸ steps).elim
      | failed failure final => exact (stepped ▸ steps).elim
  | finished value final =>
      rw [made] at steps ended
      cases ended
      cases stepped : second.step with
      | running another => exact (stepped ▸ steps).elim
      | finished partner another =>
          rw [stepped] at steps
          exact ⟨1, ⟨.ok partner, another⟩, by simp only [Machine.run, stepped],
            .ok steps.1, steps.2⟩
      | failed failure another => exact (stepped ▸ steps).elim
  | failed failure final =>
      rw [made] at steps ended
      cases ended
      cases stepped : second.step with
      | running another => exact (stepped ▸ steps).elim
      | finished partner another => exact (stepped ▸ steps).elim
      | failed cause another =>
          rw [stepped] at steps
          obtain ⟨rfl, world⟩ := steps
          exact ⟨1, ⟨.error cause, another⟩, by
            simp only [Machine.run, stepped], .error cause, world⟩

/-- When a run ends and no operand stack was full, the run of a twin ends
alike. -/
theorem Twin.run {bound : Nat} {ending : Ending}
    {activations : List (Activation Handler)}
    (twin : Twin false alignments first second)
    (sound : first.Sound activations)
    (active : activations ≠ [])
    (ended : first.run bound = some ending)
    (room : ¬ ending.StackOverflowed) :
    ∃ more other, second.run more = some other ∧ ending.Twin other := by
  -- The first machine may make two steps while the second one waits, so the
  -- induction is on all smaller bounds.
  induction bound using Nat.strong_induction_on
    generalizing first second alignments activations with
  | _ bound inner =>
  cases bound with
  | zero => cases ended
  | succ bound =>
      obtain ⟨activation, earlier, rfl⟩ := List.exists_cons_of_ne_nil active
      have framesEq := sound.frames
      cases alignments with
      | nil =>
          rw [List.length_eq_zero_iff.1 twin.frames.length.1] at framesEq
          cases framesEq
      | cons alignment older =>
          obtain ⟨frame, below, other, beneath, frames, others⟩ :=
            twin.exists_newest
          obtain ⟨newest, _, rest⟩ := twin.newest frames others
          cases frames.symm.trans framesEq
          obtain ⟨emission, here⟩ := sound.stacked.1.known
          have decoded := sound.stacked.1.laidOut.decode here
          have stays : ∀ limit final, first.step ≠ .failed
              (.fault (.stackOverflow limit)) final := by
            intro limit final fails
            simp only [Machine.run, fails] at ended
            cases ended
            exact room ⟨limit, rfl⟩
          rcases newest.aligned.follow newest.meet decoded
            with drops | ⟨partner, shares⟩
          · rcases step_of_drops frames drops
              with ⟨limit, final, fails⟩ | ⟨pushed, pushes, pops⟩
            · exact (stays limit final fails).elim
            · obtain ⟨_, laterOnce, _, pushedSound, onceChange⟩ :=
                sound.running pushes
              obtain ⟨_, _, rfl⟩ := List.exists_cons_of_ne_nil onceChange.ne_nil
              obtain ⟨_, later, _, poppedSound, change⟩ :=
                pushedSound.running pops
              rw [run_of_step pushes] at ended
              cases bound with
              | zero => cases ended
              | succ bound =>
                  rw [run_of_step pops] at ended
                  have skipped : Frame.Twin alignment older
                      { activation.frame with ip := activation.frame.ip + 2 }
                        other :=
                    { newest with meet := drops.meet }
                  have waiting : Twin false (alignment :: older)
                      { first with
                        frames := { activation.frame with ip :=
                          activation.frame.ip + 2 } ::
                          earlier.map (·.frame) } second :=
                    { twin with
                      frames := others ▸
                        .cons skipped (absurd · Bool.false_ne_true) rest
                      live := (absurd · Bool.false_ne_true) }
                  exact inner bound (by omega) waiting poppedSound
                    change.ne_nil ended
          · refine (twin.step sound frames others decoded shares stays).run
              ended ?_
            rintro next another made ⟨laterAlignments, nextTwin⟩ nextEnded
            obtain ⟨_, later, _, nextSound, change⟩ := sound.running made
            exact inner bound (by omega) nextTwin nextSound
              change.ne_nil nextEnded

end Machine

end EffectScript
