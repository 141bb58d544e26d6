import EffectScript.Proofs.Attempt

/-!
# Where handlers are

A handler is *active* from its registration until the call that registered it
ends or leaves its attempt. Active handlers are told apart by the step that
registered them, so activations are traced with handlers that carry the number
of that step.

The main statement is that the handlers of all traced activations are the active
ones, in the order of their registration, and that each of them is either in
force or out of force in one place, namely the stash of a running handler.
-/

namespace EffectScript

open Activation

/-! ## Handlers in force and out of force -/

/-- The handlers that are out of force while the frame runs. -/
def Frame.stash (frame : Frame) : List Handler :=
  match frame.link with
  | none => []
  | some link => link.stash

namespace Activation

variable {α β : Type}

/-- The handlers that each activation hides. -/
def stashes : List (Activation α) → List (List α)
  | [] => []
  | activation :: older =>
      (inForce older).take activation.hidden :: stashes older

/-- Every handler of an activation is in force or hidden, and none is both. -/
theorem inForce_stashes_perm (activations : List (Activation α)) :
    (inForce activations ++ (stashes activations).flatten).Perm
      (activations.flatMap (·.own)) := by
  induction activations with
  | nil => exact .nil
  | cons activation older inner =>
      have swapped : ((inForce older).drop activation.hidden ++
          (inForce older).take activation.hidden).Perm (inForce older) := by
        simpa using @List.perm_append_comm
          _ ((inForce older).drop activation.hidden)
          ((inForce older).take activation.hidden)
      simp only [inForce_cons, stashes, List.flatten_cons, List.flatMap_cons,
        List.append_assoc]
      refine List.Perm.append_left _ ?_
      rw [← List.append_assoc]
      exact (swapped.append_right _).trans inner

theorem inForce_sublist (activations : List (Activation α)) :
    (inForce activations).Sublist (activations.flatMap (·.own)) := by
  induction activations with
  | nil => exact .refl _
  | cons activation older inner =>
      simp only [inForce_cons, List.flatMap_cons]
      exact List.Sublist.append (.refl _) ((List.drop_sublist _ _).trans inner)

/-- The activation with other entries for its handlers. -/
def withOwn (activation : Activation α) (own : List β) : Activation β :=
  ⟨activation.frame, activation.code, activation.shape, own⟩

/-- The activation with each entry for a handler replaced. -/
def mapOwn (f : α → β) (activation : Activation α) : Activation β :=
  activation.withOwn (activation.own.map f)

theorem mapOwn_withOwn {f : α → β}
    {activation : Activation β} {own : List α}
    (same : own.map f = activation.own) :
    (activation.withOwn own).mapOwn f = activation := by
  cases activation
  cases same
  rfl

@[simp]
theorem hidden_mapOwn (f : α → β) (activation : Activation α) :
    (activation.mapOwn f).hidden = activation.hidden := rfl

theorem inForce_map (f : α → β) (activations : List (Activation α)) :
    inForce (activations.map (mapOwn f)) = (inForce activations).map f := by
  induction activations with
  | nil => rfl
  | cons activation older inner =>
      rw [List.map_cons, inForce_cons, inForce_cons, inner, hidden_mapOwn,
        List.map_append, List.map_drop]
      rfl

theorem stashes_map (f : α → β) (activations : List (Activation α)) :
    stashes (activations.map (mapOwn f)) =
      (stashes activations).map (·.map f) := by
  induction activations with
  | nil => rfl
  | cons activation older inner =>
      rw [List.map_cons, stashes, stashes, inner, hidden_mapOwn, inForce_map,
        List.map_cons, List.map_take]

/-- What activations hide is what the links of their frames keep. -/
theorem Stacked.stashes_eq {awaiting : Nat}
    {activations : List (Activation Handler)}
    (stacked : Stacked awaiting activations) :
    stashes activations = activations.map (·.frame.stash) := by
  induction activations generalizing awaiting with
  | nil => rfl
  | cons activation older inner =>
      rw [stashes, List.map_cons, inner stacked.2.2]
      cases linked : activation.frame.link with
      | none => simp [hidden_of_unlinked linked, Frame.stash, linked]
      | some link =>
          obtain ⟨newer, handler, group, staying, divided, _, _, _, _,
              _, stash⟩ := stacked.2.1 link linked
          have parts : inForce older = link.stash ++ staying := by
            rw [divided.split, stash]
            simp
          rw [hidden_of_link linked, parts, List.take_left]
          simp [Frame.stash, linked]

end Activation

namespace Machine

/-! ## Active handlers -/

/-- The step after `origin` steps registers the handler. -/
def Registered (start : Machine) (origin : Nat) (handler : Handler) : Prop :=
  ∃ machine after instruction frame below,
    Steps start origin machine after instruction ∧
    machine.frames = frame :: below ∧ Registers instruction frame below handler

/-- The handler that was registered after `origin` steps is active after `count`
steps: the call that registered it has been live since, and it has not come to
the end of the attempt or beyond. -/
structure Active (start : Machine) (count origin : Nat) (handler : Handler) :
    Prop where
  registered : Registered start origin handler
  order : origin < count
  inside : ∀ moment during, origin < moment → moment ≤ count →
    start.reached moment = some during →
    ∃ frame, during.FrameAt handler.frame frame ∧ frame.ip < handler.target

variable {start machine after : Machine} {count origin : Nat}
    {handler : Handler} {instruction : Instruction}

theorem Active.before
    (active : Active start (count + 1) origin handler)
    (earlier : origin < count) : Active start count origin handler where
  registered := active.registered
  order := earlier
  inside := fun moment during late upTo =>
    active.inside moment during late (Nat.le_succ_of_le upTo)

theorem Active.onward {frame : Frame}
    (active : Active start count origin handler)
    (reaches : start.reached (count + 1) = some after)
    (live : after.FrameAt handler.frame frame)
    (inside : frame.ip < handler.target) :
    Active start (count + 1) origin handler where
  registered := active.registered
  order := Nat.lt_succ_of_lt active.order
  inside := by
    intro moment during late upTo reachesMoment
    rcases Nat.lt_or_eq_of_le upTo with earlier | rfl
    · exact active.inside moment during late (Nat.le_of_lt_succ earlier)
        reachesMoment
    · cases reaches.symm.trans reachesMoment
      exact ⟨frame, live, inside⟩

/-- A handler is active right after its registration. -/
theorem Registered.active {frame : Frame}
    (registered : Registered start count handler)
    (reaches : start.reached (count + 1) = some after)
    (live : after.FrameAt handler.frame frame)
    (inside : frame.ip < handler.target) :
    Active start (count + 1) count handler where
  registered := registered
  order := Nat.lt_succ_self count
  inside := by
    intro moment during late upTo reachesMoment
    obtain rfl : moment = count + 1 := by omega
    cases reaches.symm.trans reachesMoment
    exact ⟨frame, live, inside⟩

/-- The handler of an activation is of a live frame that is inside the
attempt. -/
theorem Sound.owned
    {activations : List (Activation Handler)} {activation : Activation Handler}
    (sound : machine.Sound activations)
    (member : activation ∈ activations)
    (owned : handler ∈ activation.own) :
    machine.FrameAt handler.frame activation.frame ∧
    activation.frame.ip < handler.target := by
  obtain ⟨newer, older, rfl⟩ := List.append_of_mem member
  obtain ⟨_, fits⟩ := sound.stacked.fits
  obtain ⟨index, _, inside⟩ := fits.owned owned
  exact ⟨index ▸ sound.frameAt.2 rfl, inside⟩

/-- Activations whose handlers carry the steps that registered them. -/
structure Traced
    (start : Machine) (count : Nat) (machine : Machine)
    (traced : List (Activation (Nat × Handler))) : Prop where
  sound : machine.Sound (traced.map (mapOwn (·.2)))
  ordered : ((traced.flatMap (·.own)).map (·.1)).Pairwise (· > ·)
  active : ∀ origin handler,
    (origin, handler) ∈ traced.flatMap (·.own) ↔
    Active start count origin handler

/-- What a step does to traced activations: newer ones go, one lands and keeps
some of its handlers, and handlers that the step registers come on top. -/
structure Retraced
    (start : Machine) (count : Nat)
    (gone : List (Activation (Nat × Handler)))
    (landed : Activation (Nat × Handler))
    (opened : List (Activation (Nat × Handler)))
    (changed : Activation (Nat × Handler))
    (fresh kept : List (Nat × Handler)) : Prop where
  either : opened = [] ∨ gone = []
  unowned : ∀ callee ∈ opened, callee.own = []
  own : changed.own = fresh ++ kept
  sublist : kept.Sublist landed.own
  ended : ∀ entry ∈ landed.own, entry ∈ kept ∨ entry.2.target ≤ changed.frame.ip
  few : fresh.length ≤ 1
  registered : ∀ origin handler,
    (origin, handler) ∈ fresh ↔ origin = count ∧ Registered start count handler

variable {gone opened older : List (Activation (Nat × Handler))}
    {landed changed : Activation (Nat × Handler)}
    {fresh kept : List (Nat × Handler)}

theorem Retraced.flatMap_own
    (retraced : Retraced start count gone landed opened changed fresh kept) :
    (opened ++ changed :: older).flatMap (·.own) = fresh ++
      (kept ++ older.flatMap (·.own)) := by
  have none : opened.flatMap (·.own) = [] :=
    List.flatMap_eq_nil_iff.2 retraced.unowned
  rw [List.flatMap_append, none, List.flatMap_cons, retraced.own,
    List.nil_append, List.append_assoc]

/-- The handlers after a step are active. -/
theorem Traced.active_of_mem
    (traced : Traced start count machine (gone ++ landed :: older))
    (steps : Steps start count machine after instruction)
    (sound : after.Sound ((opened ++ changed :: older).map (mapOwn (·.2))))
    (retraced : Retraced start count gone landed opened changed fresh kept)
    (member : (origin, handler) ∈
      (opened ++ changed :: older).flatMap (·.own)) :
    Active start (count + 1) origin handler := by
  have reaches : start.reached (count + 1) = some after :=
    reached_succ.2 ⟨machine, steps.reaches, steps.steps⟩
  obtain ⟨activation, among, owned⟩ := List.mem_flatMap.1 member
  obtain ⟨live, inside⟩ := sound.owned (List.mem_map_of_mem among)
    (show handler ∈ (activation.mapOwn (·.2)).own
      from List.mem_map_of_mem owned)
  rw [retraced.flatMap_own] at member
  rcases List.mem_append.1 member with new | old
  · obtain ⟨rfl, registered⟩ := (retraced.registered origin handler).1 new
    exact registered.active reaches live inside
  · have active : Active start count origin handler := by
      refine (traced.active origin handler).1 ?_
      rw [List.flatMap_append, List.flatMap_cons]
      exact List.mem_append_right
        _ ((retraced.sublist.append (.refl _)).subset old)
    exact active.onward reaches live inside

/-- The active handlers are among those after a step. -/
theorem Traced.mem_of_active
    (traced : Traced start count machine (gone ++ landed :: older))
    (steps : Steps start count machine after instruction)
    (sound : after.Sound ((opened ++ changed :: older).map (mapOwn (·.2))))
    (retraced : Retraced start count gone landed opened changed fresh kept)
    (active : Active start (count + 1) origin handler) :
    (origin, handler) ∈ (opened ++ changed :: older).flatMap (·.own) := by
  have reaches : start.reached (count + 1) = some after :=
    reached_succ.2 ⟨machine, steps.reaches, steps.steps⟩
  rw [retraced.flatMap_own]
  by_cases new : origin = count
  · subst new
    exact List.mem_append_left
      _ ((retraced.registered _ _).2 ⟨rfl, active.registered⟩)
  · have order := active.order
    have old := (traced.active origin handler).2 (active.before (by omega))
    obtain ⟨frame, live, inside⟩ :=
      active.inside (count + 1) after (by omega) (Nat.le_refl _) reaches
    refine List.mem_append_right _ ?_
    rw [List.flatMap_append, List.flatMap_cons] at old
    rcases List.mem_append.1 old with above | here
    · -- The call of a discarded activation is no longer live.
      obtain ⟨activation, among, owned⟩ := List.mem_flatMap.1 above
      obtain ⟨newer, between, rfl⟩ := List.append_of_mem among
      have parts : ((newer ++ activation :: between) ++ landed :: older).map
          (mapOwn (·.2)) =
          newer.map (mapOwn (·.2)) ++ activation.mapOwn (·.2) ::
            (between ++ landed :: older).map (mapOwn (·.2)) := by
        simp
      obtain ⟨_, fits⟩ := (parts ▸ traced.sound.stacked).fits
      have index := (fits.owned (List.mem_map_of_mem owned)).1
      have none : opened = [] := retraced.either.resolve_right (by simp)
      have short := live.lt
      rw [sound.length_frames, none, index] at short
      simp only [List.length_map, List.length_append, List.length_cons,
        List.nil_append] at short
      omega
    · rcases List.mem_append.1 here with owned | below
      · rcases retraced.ended _ owned with stays | past
        · exact List.mem_append_left _ stays
        · have parts := traced.sound.stacked
          rw [List.map_append, List.map_cons] at parts
          obtain ⟨_, fits⟩ := parts.fits
          have index : handler.frame = _ :=
            (fits.owned (List.mem_map_of_mem owned)).1
          rw [List.map_append, List.map_cons] at sound
          cases (sound.frameAt).1 (index ▸ live)
          exact absurd inside (Nat.not_lt.2 past)
      · exact List.mem_append_right _ below

/-- One step keeps activations traced. -/
theorem Traced.advance
    (traced : Traced start count machine (gone ++ landed :: older))
    (steps : Steps start count machine after instruction)
    (sound : after.Sound ((opened ++ changed :: older).map (mapOwn (·.2))))
    (retraced : Retraced start count gone landed opened changed fresh kept) :
    Traced start (count + 1) after (opened ++ changed :: older) where
  sound := sound
  ordered := by
    have sub : (kept ++ older.flatMap (·.own)).Sublist
        ((gone ++ landed :: older).flatMap (·.own)) := by
      rw [List.flatMap_append, List.flatMap_cons]
      exact (retraced.sublist.append (.refl _)).trans
        (List.sublist_append_right _ _)
    have rest := traced.ordered.sublist (sub.map (·.1))
    have few := retraced.few
    rw [retraced.flatMap_own]
    cases fresh with
    | nil => exact rest
    | cons entry others =>
        obtain rfl : others = [] :=
          List.eq_nil_of_length_eq_zero (by simpa using few)
        obtain ⟨origin, handler⟩ := entry
        obtain ⟨rfl, _⟩ :=
          (retraced.registered origin handler).1 List.mem_cons_self
        refine List.Pairwise.cons ?_ rest
        intro earlier member
        obtain ⟨⟨_, held⟩, among, rfl⟩ := List.mem_map.1 member
        exact ((traced.active _ _).1 (sub.subset among)).order
  active := fun _ _ =>
    ⟨traced.active_of_mem steps sound retraced,
      traced.mem_of_active steps sound retraced⟩

/-- A step that registers a handler keeps activations traced. -/
theorem Traced.registers
    (traced : Traced start count machine (landed :: older))
    (steps : Steps start count machine after instruction)
    (operation : instruction.opcode = .setHandler) :
    ∃ changed, Traced start (count + 1) after (changed :: older) := by
  obtain ⟨kept, handler, sound, own, registers, _, _⟩ :=
    traced.sound.registers_handler steps.executes operation steps.steps
  have changedEq : (kept.withOwn ((count, handler) :: landed.own)).mapOwn
      (·.2) = kept := mapOwn_withOwn own.symm
  refine ⟨kept.withOwn ((count, handler) :: landed.own),
    @Traced.advance start machine after count instruction []
      [] older landed _ [(count, handler)]
      landed.own traced steps ?_
        ⟨.inl rfl, by simp, rfl, .refl _, fun _ held => .inl held,
          Nat.le_refl _,
        ?_⟩⟩
  · rw [List.nil_append, List.map_cons, changedEq]
    exact sound
  · intro origin other
    constructor
    · intro member
      cases List.mem_singleton.1 member
      exact ⟨rfl, machine, after, instruction, _, _, steps,
        traced.sound.frames, registers⟩
    · rintro ⟨rfl, again, _, executed, frame, below, stepsAgain, frames,
        registersAgain⟩
      cases steps.reaches.symm.trans stepsAgain.reaches
      cases steps.executes.symm.trans stepsAgain.executes
      obtain ⟨rfl, rfl⟩ := List.cons.inj (traced.sound.frames.symm.trans frames)
      rw [registers.unique registersAgain]
      exact List.mem_singleton_self _

/-- A step that registers no handler keeps activations traced. -/
theorem Traced.goes_on
    {traces : List (Activation (Nat × Handler))}
    (traced : Traced start count machine traces)
    (live : traces ≠ [])
    (steps : Steps start count machine after instruction)
    (operation : instruction.opcode ≠ .setHandler) :
    ∃ later, later ≠ [] ∧ Traced start (count + 1) after later := by
  obtain ⟨later, laterSound, change⟩ :=
    steps.change traced.sound (by simpa using live)
  obtain ⟨gone, landed, changed, older, opened, outline⟩ :=
    change.outline traced.sound.stacked
  obtain ⟨goneTraces, rest, rfl, goneEq, restEq⟩ :=
    List.map_eq_append_iff.1 outline.before
  obtain ⟨landedTrace, olderTraces, rfl, landedEq, rfl⟩ :=
    List.map_eq_cons_iff.1 restEq
  subst goneEq landedEq
  -- The entries for the handlers that the landing activation keeps.
  obtain ⟨kept, keptEq, sublist, ended⟩ : ∃ kept :
    List (Nat × Handler), kept.map (·.2) = changed.own ∧
      kept.Sublist landedTrace.own ∧
      ∀ entry ∈ landedTrace.own, entry ∈ kept ∨
        entry.2.target ≤ changed.frame.ip := by
    rcases outline.moves.own with same | ⟨registers, _⟩ | ⟨_, cut, split, ends⟩
    · exact ⟨landedTrace.own, same.symm, .refl _, fun _ held => .inl held⟩
    · exact absurd registers operation
    · obtain ⟨cutTraces, kept, ownEq, rfl, keptEq⟩ :=
        List.map_eq_append_iff.1 split
      refine ⟨kept, keptEq, ownEq ▸ List.sublist_append_right _ _, ?_⟩
      intro entry held
      rw [ownEq] at held
      rcases List.mem_append.1 held with out | stays
      · exact .inr (ends entry.2 (List.mem_map_of_mem out))
      · exact .inl stays
  have openedEq :
      (opened.map fun callee => callee.withOwn ([] : List (Nat × Handler))).map
      (mapOwn (·.2)) = opened := by
    rw [List.map_map]
    refine (List.map_congr_left ?_).trans (List.map_id opened)
    intro callee member
    exact mapOwn_withOwn (outline.fresh callee member).1.symm
  refine ⟨(opened.map fun callee => callee.withOwn []) ++
    changed.withOwn kept :: olderTraces,
    by simp, @Traced.advance start machine after count instruction goneTraces
      _ olderTraces landedTrace _
      [] kept traced steps ?_
        ⟨?_, by simp [withOwn], rfl, sublist, ended, Nat.zero_le _, ?_⟩⟩
  · rw [List.map_append, List.map_cons, openedEq, mapOwn_withOwn keptEq,
      ← outline.after]
    exact laterSound
  · rcases outline.either with none | none
    · exact .inl (by simp [none])
    · exact .inr (by simpa using none)
  · intro origin other
    constructor
    · intro member
      cases member
    · rintro ⟨_, again, _, executed, _, _, stepsAgain, _, registersAgain⟩
      cases steps.reaches.symm.trans stepsAgain.reaches
      cases steps.executes.symm.trans stepsAgain.executes
      exact absurd registersAgain.operation operation

/-- Every machine that a run reaches has traced activations. -/
theorem Started.traced
    (started : Started start)
    (reaches : start.reached count = some machine) :
    ∃ traces, traces ≠ [] ∧ Traced start count machine traces := by
  induction count generalizing machine with
  | zero =>
      cases reaches
      obtain ⟨activation, own, sound⟩ := started.sound
      have same : (activation.withOwn ([] : List (Nat × Handler))).mapOwn
          (·.2) = activation := mapOwn_withOwn own.symm
      refine ⟨[activation.withOwn []], by simp, ?_, by simp [withOwn], ?_⟩
      · rw [List.map_cons, same]
        exact sound
      · intro origin handler
        constructor
        · intro member
          simp [withOwn] at member
        · intro active
          exact absurd active.order (Nat.not_lt_zero _)
  | succ count inner =>
      obtain ⟨before, instruction, steps⟩ := started.steps reaches
      obtain ⟨traces, live, traced⟩ := inner steps.reaches
      by_cases operation : instruction.opcode = .setHandler
      · obtain ⟨landed, older, rfl⟩ := List.exists_cons_of_ne_nil live
        obtain ⟨changed, later⟩ := traced.registers steps operation
        exact ⟨changed :: older, by simp, later⟩
      · exact traced.goes_on live steps operation

end Machine

end EffectScript
