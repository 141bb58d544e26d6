import EffectScript.Proofs.Placement

/-!
# Effects find the right handler

While a handler runs, it masks the handlers of its own attempt and of all
attempts inside of it. The main statement says where every active handler is in
every state of a run, and that performing an effect runs the active handler for
it that was registered last among those that are not masked.
-/

namespace EffectScript

open Activation

/-- The handler belongs to the attempt that ends at `target` in the call with
index `frame`, or to an attempt that began inside of it. -/
def Handler.Within (handler : Handler) (frame target : Nat) : Prop :=
  frame < handler.frame ∨ frame = handler.frame ∧ handler.target ≤ target

namespace Activation

/-! ## Nesting -/

variable {activations older : List (Activation Handler)} {awaiting : Nat}

/-- Newer handlers in force belong to the attempts of older ones or to attempts
inside of them. -/
theorem Stacked.nested (stacked : Stacked awaiting activations) :
    (inForce activations).Pairwise fun newer older =>
      newer.Within older.frame older.target := by
  induction activations generalizing awaiting with
  | nil => exact .nil
  | cons activation older inner =>
      obtain ⟨fits, _, olderStacked⟩ := stacked
      refine List.pairwise_append.2
        ⟨?_, (inner olderStacked).sublist (List.drop_sublist _ _), ?_⟩
      · refine fits.sorted.imp_of_mem ?_
        intro newer older owned ownedToo sorted
        exact .inr
          ⟨(fits.owned ownedToo).1.trans (fits.owned owned).1.symm, sorted⟩
      · intro newer owned lower below
        have index := (fits.owned owned).1
        have small := olderStacked.frame_lt (List.mem_of_mem_drop below)
        exact .inl (by omega)

/-- A running handler takes the handlers of its attempt and of those inside of
it out of force, and no others. -/
theorem Tied.masks {link : EffectLink}
    (tied : Tied link older)
    (stacked : Stacked 1 older) :
    ∃ staying, inForce older = link.stash ++ staying ∧
      link.groupStart = staying.length ∧
      (∀ handler ∈ link.stash, handler.Within link.handlerFrame link.target) ∧
      ∀ handler ∈ staying, ¬ handler.Within link.handlerFrame link.target := by
  obtain ⟨newer, handler, group, staying, divided, _, frame, _, target, start,
    stash⟩ := tied
  have nested := stacked.nested
  have split : inForce older = (newer ++ handler :: group) ++ staying := by
    rw [divided.split]
    simp
  rw [split] at nested
  obtain ⟨inStash, inStaying, across⟩ := List.pairwise_append.1 nested
  refine ⟨staying, stash ▸ split, start, ?_, ?_⟩
  · rw [frame, target, stash]
    intro other member
    rcases List.mem_append.1 member with new | rest
    · exact (List.pairwise_append.1 inStash).2.2 other new handler
        List.mem_cons_self
    · rcases List.mem_cons.1 rest with rfl | same
      · exact .inr ⟨rfl, Nat.le_refl _⟩
      · have alike := divided.together other same
        simp only [Handler.sameGroup, Bool.and_eq_true, beq_iff_eq] at alike
        exact .inr ⟨alike.1, Nat.le_of_eq alike.2.symm⟩
  · rw [frame, target]
    cases staying with
    | nil => exact fun other member => by cases member
    | cons first others =>
        -- The first handler that stays is of another attempt, and the rest lie
        -- further out.
        have apart : ¬ first.Within handler.frame handler.target := by
          have outer := across handler (by simp) first List.mem_cons_self
          have different := divided.apart first rfl
          simp only [Handler.sameGroup, Bool.and_eq_true, beq_iff_eq, not_and]
            at different
          unfold Handler.Within at *
          omega
        intro other member
        rcases List.mem_cons.1 member with rfl | later
        · exact apart
        · have outer := (List.pairwise_cons.1 inStaying).1 other later
          unfold Handler.Within at *
          omega

/-- The handlers of newer activations are of newer frames. -/
theorem Stacked.le_frame {above : List (Activation Handler)}
    {handler : Handler}
    (stacked : Stacked awaiting (above ++ older))
    (member : handler ∈ above.flatMap (·.own)) :
    older.length ≤ handler.frame := by
  induction above generalizing awaiting with
  | nil => cases member
  | cons newest others inner =>
      rw [List.flatMap_cons] at member
      rcases List.mem_append.1 member with owned | below
      · rw [(stacked.1.owned owned).1, List.append_eq, List.length_append]
        exact Nat.le_add_left _ _
      · exact inner stacked.2.2 below

/-- A handler in force that is older than an activation is left in force by
it. -/
theorem Stacked.mem_drop_of_lt
    {above : List (Activation Handler)} {activation : Activation Handler}
    {handler : Handler}
    (stacked : Stacked awaiting (above ++ activation :: older))
    (member : handler ∈ inForce (above ++ activation :: older))
    (lower : handler.frame < older.length) :
    handler ∈ (inForce older).drop activation.hidden := by
  induction above generalizing awaiting with
  | nil =>
      rcases List.mem_append.1 member with owned | below
      · have index := (stacked.1.owned owned).1
        omega
      · exact below
  | cons newest others inner =>
      rcases List.mem_append.1 member with owned | below
      · have index := (stacked.1.owned owned).1
        simp only [List.append_eq, List.length_append, List.length_cons]
          at index
        omega
      · exact inner stacked.2.2 (List.mem_of_mem_drop below)

end Activation

/-- An effect finds no handler when none in force is for it. -/
theorem Dispatch.find?_eq_none_iff {effect : String} {handlers : List Handler} :
    Dispatch.find? effect handlers = none ↔
    ∀ handler ∈ handlers, handler.effect ≠ effect := by
  induction handlers with
  | nil => simp [find?]
  | cons handler older inner =>
      simp only [find?, List.mem_cons, forall_eq_or_imp]
      split
      next same => simp [same]
      next different => simp [different, inner]

namespace Machine

/-! ## Masking -/

/-- A running handler masks the given one, which an older call registered in the
same attempt or in an attempt inside of it. -/
def Masked (machine : Machine) (handler : Handler) : Prop :=
  ∃ index frame link, machine.FrameAt index frame ∧ frame.link = some link ∧
    handler.frame < index ∧
    handler.Within link.handlerFrame link.target

variable {start machine : Machine} {count : Nat} {handler : Handler}
  {activations : List (Activation Handler)}

theorem Sound.split_at {index : Nat} {frame : Frame}
    (sound : machine.Sound activations)
    (live : machine.FrameAt index frame) :
    ∃ newer activation older, activations = newer ++ activation :: older ∧
      activation.frame = frame ∧ older.length = index := by
  obtain ⟨above, below, frames, rfl⟩ := live
  rw [sound.frames] at frames
  obtain ⟨newer, rest, rfl, _, restEq⟩ := List.map_eq_append_iff.1 frames
  obtain ⟨activation, older, rfl, frameEq, rfl⟩ := List.map_eq_cons_iff.1 restEq
  exact ⟨newer, activation, older, rfl, frameEq, by simp⟩

/-- Handlers in force are not masked. -/
theorem Sound.unmasked
    (sound : machine.Sound activations)
    (member : handler ∈ machine.handlers) :
    ¬ machine.Masked handler := by
  rintro ⟨index, frame, link, live, linked, lower, within⟩
  obtain ⟨newer, activation, older, rfl, rfl, rfl⟩ := sound.split_at live
  obtain ⟨tied, stacked⟩ := sound.stacked.tied linked
  obtain ⟨staying, split, _, _, apart⟩ := tied.masks stacked
  have stays := sound.stacked.mem_drop_of_lt (sound.handlers ▸ member) lower
  rw [hidden_of_link linked, split, List.drop_left] at stays
  exact apart handler stays within

/-- Handlers that are out of force are masked. -/
theorem Sound.masked
    (sound : machine.Sound activations)
    {frame : Frame}
    (running : frame ∈ machine.frames)
    (member : handler ∈ frame.stash) :
    machine.Masked handler := by
  obtain ⟨above, below, frames⟩ := List.append_of_mem running
  have live : machine.FrameAt below.length frame := ⟨above, below, frames, rfl⟩
  obtain ⟨newer, activation, older, rfl, rfl, index⟩ := sound.split_at live
  cases linked : activation.frame.link with
  | none =>
      simp only [Frame.stash, linked] at member
      cases member
  | some link =>
      simp only [Frame.stash, linked] at member
      obtain ⟨tied, stacked⟩ := sound.stacked.tied linked
      obtain ⟨staying, split, _, inside, _⟩ := tied.masks stacked
      refine ⟨older.length, activation.frame, link, index ▸ live, linked, ?_,
        inside handler member⟩
      exact stacked.frame_lt
        (by rw [split]; exact List.mem_append_left _ member)

/-! ## Placement -/

/-- Where the active handlers are: `listed` are those in force and `stashed`
those that each frame keeps out of force, all with the steps that registered
them. -/
structure Placement
    (start : Machine) (count : Nat) (machine : Machine)
    (listed : List (Nat × Handler))
    (stashed : List (List (Nat × Handler))) : Prop where
  handlers : listed.map (·.2) = machine.handlers
  stashes : stashed.map (·.map (·.2)) = machine.frames.map (·.stash)
  active : ∀ origin handler,
    (origin, handler) ∈ listed ++ stashed.flatten ↔
    Active start count origin handler
  once : ((listed ++ stashed.flatten).map (·.1)).Nodup
  ordered : (listed.map (·.1)).Pairwise (· > ·)
  unmasked : ∀ origin handler,
    (origin, handler) ∈ listed ↔ Active start count origin handler ∧
    ¬ machine.Masked handler

theorem Traced.placement
    {traces : List (Activation (Nat × Handler))}
    (traced : Traced start count machine traces) :
    Placement start count machine (inForce traces)
      (Activation.stashes traces) := by
  have sound := traced.sound
  have handlers : (inForce traces).map (·.2) = machine.handlers := by
    rw [sound.handlers, inForce_map]
  have stashed : (Activation.stashes traces).map (·.map (·.2)) =
      machine.frames.map (·.stash) := by
    rw [sound.frames, List.map_map, ← stashes_map, sound.stacked.stashes_eq]
    rfl
  have perm := inForce_stashes_perm traces
  have active (origin : Nat) (handler : Handler) :
      (origin, handler) ∈ inForce traces ++
          (Activation.stashes traces).flatten ↔
        Active start count origin handler := by
    rw [perm.mem_iff, traced.active]
  refine ⟨handlers, stashed, active, ?_, ?_, ?_⟩
  · refine (perm.map (·.1)).nodup_iff.2 ?_
    exact traced.ordered.imp fun later => Nat.ne_of_gt later
  · exact traced.ordered.sublist ((inForce_sublist traces).map _)
  · intro origin handler
    constructor
    · intro member
      refine ⟨(active origin handler).1 (List.mem_append_left _ member),
        sound.unmasked ?_⟩
      rw [← handlers]
      exact List.mem_map_of_mem member
    · rintro ⟨isActive, unmasked⟩
      rcases List.mem_append.1 ((active origin handler).2 isActive)
        with listed | out
      · exact listed
      · obtain ⟨stash, among, held⟩ := List.mem_flatten.1 out
        have kept : stash.map (·.2) ∈ machine.frames.map (·.stash) :=
          stashed ▸ List.mem_map_of_mem among
        obtain ⟨frame, running, stashEq⟩ := List.mem_map.1 kept
        refine absurd (sound.masked running ?_) unmasked
        rw [stashEq]
        exact List.mem_map_of_mem held

/-- The handler may answer the effect: it is active, for that effect and not
masked. -/
structure Eligible
    (start : Machine) (count : Nat) (machine : Machine) (effect : String)
    (origin : Nat) (handler : Handler) : Prop where
  active : Active start count origin handler
  effect : handler.effect = effect
  unmasked : ¬ machine.Masked handler

/-- The handler that an effect finds is the one that was registered last among
those that may answer it. -/
theorem Placement.newest {listed : List (Nat × Handler)}
    {stashed : List (List (Nat × Handler))}
    (placement : Placement start count machine listed stashed)
    {effect : String} {dispatch : Dispatch}
    (found : Dispatch.find? effect machine.handlers = some dispatch)
    {origin : Nat}
    (eligible : Eligible start count machine effect origin handler)
    (last : ∀ later other, Eligible start count machine effect later other →
      later ≤ origin) :
    handler = dispatch.handler := by
  obtain ⟨newer, group, divided, _, answers, others⟩ := Divided.of_find? found
  have split := placement.handlers.trans divided.split
  obtain ⟨newerListed, rest, rfl, rfl, restEq⟩ := List.map_eq_append_iff.1 split
  obtain ⟨⟨moment, _⟩, older, rfl, rfl, _⟩ := List.map_eq_cons_iff.1 restEq
  obtain ⟨active, unmasked⟩ :=
    (placement.unmasked moment dispatch.handler).1 (by simp)
  have before := last moment dispatch.handler ⟨active, answers, unmasked⟩
  have listed := (placement.unmasked origin handler).2
    ⟨eligible.active, eligible.unmasked⟩
  rcases List.mem_append.1 listed with new | old
  · exact absurd eligible.effect (others handler (List.mem_map_of_mem new))
  · rcases List.mem_cons.1 old with same | earlier
    · cases same
      rfl
    · have ordered := placement.ordered
      rw [List.map_append, List.map_cons] at ordered
      have less :=
        (List.pairwise_cons.1 (List.pairwise_append.1 ordered).2.1).1 origin
        (List.mem_map_of_mem earlier)
      omega

/-! ## Running handlers -/

/-- The frame with the given index answers the effect that the frame below it
performed after `origin` steps, and it has been live since. -/
structure Performed
    (start : Machine) (count index origin : Nat)
    (performing : Machine) : Prop where
  steps : ∃ after instruction, Steps start origin performing after instruction ∧
    instruction.opcode = .perform
  below : performing.frames.length = index
  order : origin < count
  live : ∀ moment during, origin < moment → moment ≤ count →
    start.reached moment = some during →
    index < during.frames.length

theorem Performed.onward {performing after : Machine}
    {index origin : Nat}
    (performed : Performed start count index origin performing)
    (reaches : start.reached (count + 1) = some after)
    (live : index < after.frames.length) :
    Performed start (count + 1) index origin performing where
  steps := performed.steps
  below := performed.below
  order := Nat.lt_succ_of_lt performed.order
  live := by
    intro moment during late upTo reachesMoment
    rcases Nat.lt_or_eq_of_le upTo with earlier | rfl
    · exact performed.live moment during late (Nat.le_of_lt_succ earlier)
        reachesMoment
    · cases reaches.symm.trans reachesMoment
      exact live

/-- Every running handler answers an effect that was performed, and what was in
force then is what its activation lies above. -/
theorem Started.performed
    (started : Started start)
    (reaches : start.reached count = some machine) :
    ∃ activations, activations ≠ [] ∧ machine.Sound activations ∧
      ∀ newer callee older, activations = newer ++ callee :: older →
        callee.frame.link ≠ none →
        ∃ origin performing,
          Performed start count older.length origin performing ∧
          performing.handlers = inForce older := by
  induction count generalizing machine with
  | zero =>
      cases reaches
      obtain ⟨activation, _, sound⟩ := started.sound
      refine ⟨[activation], by simp, sound, ?_⟩
      intro newer callee older parts linked
      obtain ⟨rfl, rfl, rfl⟩ : newer = [] ∧ activation = callee ∧
          older = [] := by
        cases newer with
        | nil => simpa using parts
        | cons first others => simp at parts
      obtain ⟨link, linkEq⟩ := Option.ne_none_iff_exists'.1 linked
      obtain ⟨_, _, _, _, _, impossible, _⟩ := sound.stacked.2.1 link linkEq
      cases impossible
  | succ count inner =>
      obtain ⟨before, instruction, steps⟩ := started.steps reaches
      obtain ⟨activations, live, sound, performed⟩ := inner steps.reaches
      obtain ⟨later, laterSound, change⟩ := steps.change sound live
      refine ⟨later, change.ne_nil, laterSound, ?_⟩
      rintro newer callee older rfl linked
      have deep : older.length < machine.frames.length := by
        rw [laterSound.length_frames, List.length_append, List.length_cons]
        omega
      rcases change.origin sound.stacked with
        ⟨caller, changed, below, rfl, rfl, own, sameLink, opens⟩ | ⟨above,
          previous, rfl, sameLink⟩
      · refine ⟨count, before,
          ⟨⟨machine, instruction, steps, opens.1 linked⟩, ?_,
            Nat.lt_succ_self count, ?_⟩, ?_⟩
        · rw [sound.length_frames]
          rfl
        · intro moment during late upTo reachesMoment
          obtain rfl : moment = count + 1 := by omega
          cases reaches.symm.trans reachesMoment
          exact deep
        · rw [sound.handlers, inForce_cons, inForce_cons, own]
          simp only [Activation.hidden, sameLink]
      · obtain ⟨origin, performing, wasPerformed, handlers⟩ :=
          performed above previous older rfl (sameLink ▸ linked)
        exact ⟨origin, performing, wasPerformed.onward reaches deep, handlers⟩

/-- What the newest running handler, whose frame has the given index, tells
about the handlers in force: the older ones are those that were in force below
its attempt when the effect was performed, and the newer ones were registered by
its frame or above. -/
structure Recalls
    (start : Machine) (count : Nat) (machine : Machine) (index : Nat)
    (link : EffectLink) : Prop where
  enough : link.groupStart ≤ machine.handlers.length
  newer : ∀ handler ∈ machine.handlers.take
    (machine.handlers.length - link.groupStart),
    index ≤ handler.frame
  older : ∃ origin performing, Performed start count index origin performing ∧
    link.groupStart ≤ performing.handlers.length ∧
    oldest link.groupStart machine.handlers =
      oldest link.groupStart performing.handlers

theorem Started.recalls
    (started : Started start)
    (reaches : start.reached count = some machine)
    {newer older : List Frame} {frame : Frame} {link : EffectLink}
    (frames : machine.frames = newer ++ frame :: older)
    (linked : frame.link = some link)
    (newest : ∀ other ∈ newer, other.link = none) :
    Recalls start count machine older.length link := by
  obtain ⟨activations, _, sound, performed⟩ := started.performed reaches
  obtain ⟨above, callee, below, rfl, rfl, index⟩ :=
    sound.split_at ⟨newer, older, frames, rfl⟩
  obtain ⟨rfl, _⟩ :=
    List.append_inj' ((sound.frames.symm.trans frames).symm.trans
    List.map_append) (by simp [index])
  obtain ⟨origin, performing, wasPerformed, handlersThen⟩ :=
    performed above callee below rfl (by simp [linked])
  obtain ⟨tied, stacked⟩ := sound.stacked.tied linked
  obtain ⟨staying, split, begins, _, _⟩ := tied.masks stacked
  have handlers : machine.handlers = (above.flatMap (·.own) ++ callee.own) ++
      staying := by
    rw [sound.handlers, inForce_append fun other member => newest other.frame
      (List.mem_map_of_mem member), inForce_cons, hidden_of_link linked, split,
      List.drop_left, List.append_assoc]
  refine ⟨?_, ?_, origin, performing, index ▸ wasPerformed, ?_, ?_⟩
  · rw [handlers, begins, List.length_append]
    omega
  · have count : machine.handlers.length - link.groupStart =
        (above.flatMap (·.own) ++ callee.own).length := by
      rw [handlers, begins, List.length_append]
      omega
    rw [count, handlers, List.take_left, ← index]
    intro handler member
    have stacked : Stacked 0 ((above ++ [callee]) ++ below) := by
      simpa using sound.stacked
    exact stacked.le_frame (by simpa using member)
  · rw [handlersThen, split, begins, List.length_append]
    omega
  · rw [handlersThen, handlers, split, begins, oldest_append, oldest_append]

/-! ## Dispatch -/

/-- A step that performs an effect fails for want of a handler when none may
answer it, and else it runs the one that was registered last, unless a limit of
the machine is reached. -/
theorem Started.performs
    (started : Started start)
    (reaches : start.reached count = some machine)
    {instruction : Instruction} {frame : Frame} {below : List Frame}
    {effect : String}
    (executes : machine.instruction? = some instruction)
    (operation : instruction.opcode = .perform)
    (frames : machine.frames = frame :: below)
    (named : frame.template.name? instruction.byte = some effect) :
    ((∃ trace final, machine.step = .failed (.unhandled effect trace) final) ↔
        ∀ origin handler, ¬ Eligible start count machine effect
          origin handler) ∧
      ∀ origin handler, Eligible start count machine effect origin handler →
        (∀ later other, Eligible start count machine effect later other →
          later ≤ origin) →
        (∃ after callee link, machine.step = .running after ∧
            after.frames = callee :: frame.suspended instruction :: below ∧
            callee.closure = handler.closure ∧ callee.link = some link ∧
            link.handlerFrame = handler.frame ∧ link.target = handler.target) ∨
          ∃ fault final, machine.step = .failed (.fault fault) final ∧
            ((∃ limit, fault = .frameOverflow limit) ∨
              ∃ limit, fault = .stackOverflow limit) := by
  obtain ⟨traces, live, traced⟩ := started.traced reaches
  have placement := traced.placement
  obtain ⟨activation, older, rfl⟩ := List.exists_cons_of_ne_nil live
  have sound := traced.sound
  obtain ⟨rfl, rfl⟩ := List.cons.inj (frames.symm.trans sound.frames)
  cases found : Dispatch.find? effect machine.handlers with
  | none =>
      have missing := Dispatch.find?_eq_none_iff.1 found
      have ineligible : ∀ origin handler, ¬ Eligible start count machine effect
          origin handler := by
        intro origin handler eligible
        have listed := (placement.unmasked origin handler).2
          ⟨eligible.active, eligible.unmasked⟩
        refine missing handler ?_ eligible.effect
        rw [← placement.handlers]
        exact List.mem_map_of_mem listed
      refine ⟨⟨fun _ => ineligible, fun _ =>
        sound.unhandled executes operation named found⟩, ?_⟩
      exact fun origin handler eligible =>
        absurd eligible (ineligible origin handler)
  | some dispatch =>
      have handled := sound.handled executes operation named found
      refine ⟨⟨?_, ?_⟩, ?_⟩
      · rintro ⟨trace, final, failed⟩
        rcases handled with ⟨after, _, runs, _⟩ | ⟨fault, other, faults, _⟩
        · rw [runs] at failed
          cases failed
        · rw [faults] at failed
          cases failed
      · intro ineligible
        obtain ⟨newer, group, divided, _, answers, _⟩ := Divided.of_find? found
        have member : dispatch.handler ∈
            (inForce (activation :: older)).map (·.2) := by
          rw [placement.handlers, divided.split]
          simp
        obtain ⟨⟨origin, _⟩, listed, rfl⟩ := List.mem_map.1 member
        obtain ⟨active, unmasked⟩ := (placement.unmasked origin _).1 listed
        exact absurd ⟨active, answers, unmasked⟩ (ineligible origin _)
      · intro origin handler eligible last
        rw [placement.newest found eligible last]
        rcases handled
          with ⟨after, callee, runs, framesAfter, closureEq, linked⟩ |
          ⟨fault, final, faults, expected⟩
        · exact .inl ⟨after, callee, _, runs, framesAfter, closureEq,
            linked, rfl, rfl⟩
        · exact .inr ⟨fault, final, faults, expected.overflow⟩

/-- Effects find the right handler in every state of a run of a compiled script.
Every active handler is in one place, in force or in the stash of one running
handler, and nothing else is there. The handlers in force are in the order of
their registration and of live frames, newer ones of newer frames. The newest
running handler left those in force that are older than its attempt. So an
effect runs the handler that was registered last among the active ones for it
that are not masked, and it is unhandled when there is none. -/
theorem dispatch_finds_newest_unmasked
    (started : Started start)
    (reaches : start.reached count = some machine) :
    (∃ listed stashed, Placement start count machine listed stashed) ∧
    machine.handlers.Pairwise (fun newer older => older.frame ≤ newer.frame) ∧
    (∀ handler ∈ machine.handlers, handler.frame < machine.frames.length) ∧
    (∀ newer frame older link, machine.frames = newer ++ frame :: older →
      frame.link = some link →
      (∀ other ∈ newer, other.link = none) →
        Recalls start count machine older.length link) ∧
    ∀ instruction frame below effect, machine.instruction? = some instruction →
      instruction.opcode = .perform → machine.frames = frame :: below →
      frame.template.name? instruction.byte = some effect →
      ((∃ trace final, machine.step = .failed (.unhandled effect trace) final) ↔
        ∀ origin handler, ¬ Eligible start count machine effect
          origin handler) ∧
      ∀ origin handler, Eligible start count machine effect origin handler →
        (∀ later other, Eligible start count machine effect later other →
          later ≤ origin) →
        (∃ after callee link, machine.step = .running after ∧
          after.frames = callee :: frame.suspended instruction :: below ∧
          callee.closure = handler.closure ∧ callee.link = some link ∧
          link.handlerFrame = handler.frame ∧ link.target = handler.target) ∨
        ∃ fault final, machine.step = .failed (.fault fault) final ∧
          ((∃ limit, fault = .frameOverflow limit) ∨
            ∃ limit, fault = .stackOverflow limit) := by
  obtain ⟨traces, _, traced⟩ := started.traced reaches
  have sound := traced.sound
  refine ⟨⟨_, _, traced.placement⟩, ?_, ?_, ?_, ?_⟩
  · rw [sound.handlers]
    refine sound.stacked.nested.imp ?_
    rintro newer older (inside | ⟨same, _⟩)
    · exact Nat.le_of_lt inside
    · exact Nat.le_of_eq same
  · intro handler member
    rw [sound.length_frames]
    exact sound.stacked.frame_lt (sound.handlers ▸ member)
  · intro newer frame older link frames linked newest
    exact started.recalls reaches frames linked newest
  · intro instruction frame below effect executes operation frames named
    exact started.performs reaches executes operation frames named

/-- A handler that performs its own effect is masked, and the outer handler
answers. -/
theorem dispatch_in_handler_finds_outer :
    ∃ start machine instruction frame below, Started start ∧
      start.reached 9 = some machine ∧
      machine.instruction? = some instruction ∧ instruction.opcode = .perform ∧
      machine.frames = frame :: below ∧
      frame.template.name? instruction.byte = some "e" ∧
      (∃ listed stashed, Placement start 9 machine listed stashed ∧
        listed.length = 1 ∧
        stashed.flatten.length = 1) ∧
      ∃ origin handler, Eligible start 9 machine "e" origin handler := by
  obtain ⟨start, started, checked⟩ := @exists_started .standard
    ("try { try { do e() } handle e(x) { resume(do e() + 1) } } " ++
      "handle e(x) { resume(10) }")
    (fun start => decide (
      (start.reached 9).map (fun machine =>
        (machine.instruction?.map fun instruction => (instruction.opcode,
          machine.frames.head?.bind fun frame =>
            frame.template.name? instruction.byte),
        machine.handlers.length, machine.frames.map (·.stash.length),
        machine.next?.isSome)) =
      some (some (.perform, some "e"), 1, [1, 0], true)))
    (by decide +kernel)
  simp only [decide_eq_true_eq, Option.map_eq_some_iff, Prod.mk.injEq,
    Option.bind_eq_some_iff, Option.isSome_iff_exists] at checked
  obtain ⟨machine, reaches,
    ⟨instruction, executes, operation, frame, newest, named⟩, few, stashes,
    after, runs⟩ := checked
  obtain ⟨below, frames⟩ := List.head?_eq_some_iff.1 newest
  obtain ⟨⟨listed, stashed, placement⟩, _, _, _, performs⟩ :=
    dispatch_finds_newest_unmasked started reaches
  have handled :=
    (performs instruction frame below "e" executes operation frames named).1
  refine ⟨start, machine, instruction, frame, below, started, reaches, executes,
    operation, frames, named, ⟨listed, stashed, placement, ?_, ?_⟩, ?_⟩
  · rw [← few, ← placement.handlers, List.length_map]
  · have lengths := congrArg (·.map List.length) placement.stashes
    simp only [List.map_map, Function.comp_def, List.length_map] at lengths
    rw [List.length_flatten, lengths, stashes]
    rfl
  · by_contra none
    obtain ⟨trace, final, failed⟩ := handled.2 fun origin handler eligible =>
      none ⟨origin, handler, eligible⟩
    rw [next?_eq_some.1 runs] at failed
    cases failed

end Machine

end EffectScript
