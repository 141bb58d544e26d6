import EffectScript.Proofs.Constructs
import EffectScript.Proofs.Drafting
import Mathlib.Data.List.Forall2

/-!
# Lowering produces structured code

Lowering an expression appends the emissions of some typed code that leaves one
more value on the operand stack. Meanwhile the functions around the one being
written keep their emissions: all that happens to them is that slots are
promoted and that captured names are declared.

The main statement is that every template the compiler makes is sound.
-/

namespace EffectScript

/-- Drafts from the innermost one outward that are sound, and in which every
captured box comes from a slot of the next one that holds a box. -/
def Linked : List Draft → Prop
  | [] => True
  | [outermost] => outermost.Sound ∧ outermost.captures = []
  | inner :: outer :: beyond =>
      inner.Sound ∧ (∀ capture ∈ inner.captures, capture.1 ∈ outer.heapSlots) ∧
        Linked (outer :: beyond)

theorem Linked.sound {draft : Draft} {beyond : List Draft}
    (linked : Linked (draft :: beyond)) :
    draft.Sound := by
  cases beyond with
  | nil => exact linked.1
  | cons outer beyond => exact linked.1

/-- The innermost draft may be replaced by a sound one with the same
captures. -/
theorem Linked.replace {draft later : Draft}
    {beyond : List Draft}
    (linked : Linked (draft :: beyond))
    (sound : later.Sound)
    (captures : later.captures = draft.captures) :
    Linked (later :: beyond) := by
  cases beyond with
  | nil => exact ⟨sound, captures.trans linked.2⟩
  | cons outer beyond => exact ⟨sound, captures ▸ linked.2.1, linked.2.2⟩

/-- Whether the place that a store writes to is there. -/
def StoreTarget.Valid (pools : Pools) : StoreTarget → Prop
  | .slot number => number.toNat < pools.locals
  | .global index => index.toNat < pools.names.length

theorem StoreTarget.Valid.mono {pools more : Pools}
    {target : StoreTarget}
    (valid : target.Valid pools)
    (extends_ : pools.Extends more) :
    target.Valid more := by
  cases target with
  | slot number => exact Nat.lt_of_lt_of_le valid extends_.locals
  | global index => exact Nat.lt_of_lt_of_le valid extends_.names.length_le

namespace Nest

/-! ## Names -/

/-- Looking up a name keeps all drafts, and gives a slot of the innermost
one. -/
theorem resolveFrom_spec {name : String} {line : UInt32}
    {current later : Draft} {enclosing laterEnclosing : List Draft}
    {found : Option UInt8}
    (linked : Linked (current :: enclosing))
    (resolved : resolveFrom name line current enclosing = .ok
      (found, later, laterEnclosing)) :
    Linked (later :: laterEnclosing) ∧ current.Keeps later ∧
      List.Forall₂ Draft.Keeps enclosing laterEnclosing ∧
      ∀ slot, found = some slot → slot.toNat < later.slots.length := by
  have known {draft : Draft} (sound : draft.Sound) {slot : UInt8}
      (held : draft.slot? name = some slot) :
        slot.toNat < draft.slots.length := by
    obtain ⟨before, after, slotsEq, _⟩ := List.lookup_eq_some_iff.1 held
    exact sound.slotBelow (name, slot) (by simp [slotsEq])
  have same (drafts : List Draft) : List.Forall₂ Draft.Keeps drafts drafts :=
    List.forall₂_same.2 fun draft _ => .refl draft
  induction enclosing generalizing current later laterEnclosing found with
  | nil =>
      cases resolved
      exact ⟨linked, .refl _, .nil, fun slot held => known linked.sound held⟩
  | cons outer beyond inner =>
      simp only [resolveFrom] at resolved
      split at resolved
      next slot held =>
        cases resolved
        refine ⟨linked, .refl _, same _, ?_⟩
        rintro _ ⟨⟩
        exact known linked.sound held
      next =>
        split at resolved
        · cases resolved
          exact ⟨linked, .refl _, same _, by rintro _ ⟨⟩⟩
        · obtain ⟨⟨outerFound, outerLater, beyondLater⟩, outerResolved, rest⟩ :=
            Outcome.bind_eq_ok.1 resolved
          obtain ⟨currentSound, captures, outerLinked⟩ := linked
          obtain ⟨laterLinked, outerKeeps, beyondKeeps, outerSlot⟩ :=
            inner outerLinked outerResolved
          cases outerFound with
          | none =>
              cases rest
              refine ⟨⟨currentSound, ?_, laterLinked⟩, .refl _,
                .cons outerKeeps beyondKeeps, by rintro _ ⟨⟩⟩
              exact fun capture member =>
                outerKeeps.heap _ (captures capture member)
          | some slotOutside =>
              obtain ⟨⟨slot, captured⟩, declared, result⟩ :=
                Outcome.bind_eq_ok.1 rest
              cases result
              obtain ⟨capturedSound, capturedKeeps, below, capturesEq⟩ :=
                currentSound.declareCapture declared
              have promotedSound :=
                laterLinked.sound.promote (outerSlot slotOutside rfl)
              refine ⟨⟨capturedSound, ?_, laterLinked.replace promotedSound ?_⟩,
                capturedKeeps, .cons
                  (outerKeeps.trans (Draft.keeps_promote _ _)) beyondKeeps, ?_⟩
              · intro capture member
                rw [capturesEq] at member
                rcases List.mem_append.1 member with old | new
                · exact Draft.mem_heapSlots_promote.2
                    (.inr (outerKeeps.heap _ (captures capture old)))
                · cases List.mem_singleton.1 new
                  exact Draft.mem_heapSlots_promote.2 (.inl rfl)
              · unfold Draft.promote
                split <;> rfl
              · rintro _ ⟨⟩
                exact below

/-! ## Progress of a nest -/

/-- The drafts of the nest are linked, and the innermost one holds the given
emissions. -/
structure Ready (nest : Nest) (held : List Emission) : Prop where
  linked : Linked (nest.current :: nest.enclosing)
  holds : nest.current.Holds held

/-- The nest `later` was reached from another one, with new emissions in the
innermost draft. -/
structure Lowers (held new : List Emission) (nest later : Nest) : Prop
    extends later.Ready (held ++ new) where
  grows : nest.current.Grows later.current
  enclosing : List.Forall₂ Draft.Keeps nest.enclosing later.enclosing

variable {held new : List Emission} {nest later last : Nest}

theorem Ready.lowers (ready : nest.Ready held) : Lowers held [] nest nest where
  linked := ready.linked
  holds := by simpa using ready.holds
  grows := .refl _
  enclosing := List.forall₂_same.2 fun draft _ => .refl draft

theorem forall₂_keeps_trans
    {first second third : List Draft}
    (early : List.Forall₂ Draft.Keeps first second)
    (late : List.Forall₂ Draft.Keeps second third) :
    List.Forall₂ Draft.Keeps first third := by
  induction early generalizing third with
  | nil => exact late
  | cons head _ inner =>
      cases late with
      | cons lateHead lateTail =>
          exact .cons (head.trans lateHead) (inner lateTail)

theorem Lowers.trans {more : List Emission}
    (early : Lowers held new nest later)
    (late : Lowers (held ++ new) more later last) :
    Lowers held (new ++ more) nest last where
  linked := late.linked
  holds := by simpa using late.holds
  grows := early.grows.trans late.grows
  enclosing := forall₂_keeps_trans early.enclosing late.enclosing

/-- Writing code changes nothing but the code of the innermost draft. -/
theorem Lowers.write
    (lowers : Lowers held new nest later)
    {draft : Draft}
    (alike : later.current.Alike draft)
    {more : List Emission}
    (holds : draft.Holds (held ++ more)) :
    Lowers held more nest { later with current := draft } where
  linked := lowers.linked.replace (alike.sound lowers.linked.sound)
    alike.captures
  holds := holds
  grows := lowers.grows.trans alike.grows
  enclosing := lowers.enclosing

/-- Drafts may be looked up and declared in without writing. -/
theorem Lowers.keep
    (lowers : Lowers held new nest later)
    (linked : Linked (last.current :: last.enclosing))
    (keeps : later.current.Keeps last.current)
    (enclosing : List.Forall₂ Draft.Keeps later.enclosing last.enclosing) :
    Lowers held new nest last where
  linked := linked
  holds := keeps.holds lowers.holds
  grows := lowers.grows.trans keeps.toGrows
  enclosing := forall₂_keeps_trans lowers.enclosing enclosing

/-- Appending an operation that accesses no slot. -/
theorem Lowers.emit
    (lowers : Lowers held new nest later)
    {opcode : Opcode} {operands : List UInt8}
    (complete : operands.length = opcode.operandCount)
    (noAccess : opcode.promoted? = none)
    (line : UInt32) :
    Lowers held (new ++ [⟨opcode, operands⟩]) nest
      (later.emit opcode operands line) :=
  lowers.write (Draft.alike_emit _ _ _ _)
    (by simpa using lowers.holds.emit_plain complete noAccess line)

theorem Ready.offset (ready : nest.Ready held) : nest.offset = totalSize held :=
  ready.holds.size

/-- Patching fills in the distance to the end of the code. -/
theorem Lowers.patch {before after : List Emission}
    {opcode : Opcode} {first : List UInt8} {high low : UInt8} {origin : Nat}
    {line : UInt32} {draft : Draft}
    (lowers : Lowers held
      (before ++ ⟨opcode, first ++ [high, low]⟩ :: after) nest later)
    (noAccess : opcode.promoted? = none)
    (originEq : origin = totalSize (held ++ before) + first.length + 3)
    (patched : later.current.patchTo origin line = .ok draft) :
    Lowers held
      (before ++ ⟨opcode, first ++ Instruction.shortBytes (totalSize after)⟩ ::
        after) nest
        { later with current := draft } ∧
      totalSize after ≤ 65535 ∧ draft.removable = none := by
  have holds := lowers.holds
  rw [← List.append_assoc] at holds
  obtain ⟨patchedHolds, small, fixed⟩ := holds.patchTo noAccess originEq patched
  refine ⟨lowers.write (Draft.alike_patchTo patched) ?_, small, fixed⟩
  simpa using patchedHolds

/-- The nest was reached by appending the emissions of valid typed code that
leaves `rise` more values on the operand stack. -/
structure Produces
    (held : List Emission) (nest later : Nest) (rise : Nat) (code : Code) :
    Prop extends Lowers held code.emissions nest later where
  typed : code.Typed 0
  height : code.heightAfter 0 = rise
  fits : code.Fits
  valid : code.Valid later.current.pools

theorem Ready.nothing (ready : nest.Ready held) :
    Produces held nest nest 0 .nothing where
  toLowers := ready.lowers
  typed := trivial
  height := rfl
  fits := trivial
  valid := trivial

theorem Produces.sequence {rise more : Nat}
    {first second : Code}
    (early : Produces held nest later rise first)
    (late : Produces (held ++ first.emissions) later last more second) :
    Produces held nest last (rise + more) (first.sequence second) := by
  obtain ⟨lateTyped, lateHeight⟩ := late.typed.add rise
  rw [Nat.zero_add] at lateTyped lateHeight
  refine ⟨early.toLowers.trans late.toLowers, ⟨early.typed, ?_⟩, ?_,
    ⟨early.fits, late.fits⟩, ⟨early.valid.mono late.grows.pools, late.valid⟩⟩
  · rw [early.height]
    exact lateTyped
  · simp only [Code.heightAfter, early.height, lateHeight, late.height]
    omega

theorem Produces.keep {rise : Nat} {code : Code}
    (produces : Produces held nest later rise code)
    (linked : Linked (last.current :: last.enclosing))
    (keeps : later.current.Keeps last.current)
    (enclosing : List.Forall₂ Draft.Keeps later.enclosing last.enclosing) :
    Produces held nest last rise code where
  toLowers := produces.toLowers.keep linked keeps enclosing
  typed := produces.typed
  height := produces.height
  fits := produces.fits
  valid := produces.valid.mono keeps.pools

/-- Appending a plain emission. -/
theorem Produces.emit {rise : Nat} {code : Code}
    (produces : Produces held nest later rise code)
    (emission : Emission) (plain : emission.isPlain)
    (complete : emission.Complete)
    (enough : emission.pops ≤ rise)
    (valid : emission.Valid later.current.pools)
    (line : UInt32) :
    Produces held nest
      (later.emit (emission.written later.current.heapSlots)
        emission.operands line)
      (rise - emission.pops + emission.pushes)
        (code.sequence (.plain emission)) := by
  have inRange : emission.opcode.promoted?.isSome →
      emission.byte.toNat < later.current.slots.length := by
    intro access
    unfold Emission.Valid at valid
    cases opcodeEq : emission.opcode <;> simp_all
      [Opcode.promoted?] <;> exact valid
  refine ⟨produces.toLowers.write (Draft.alike_emit _ _ _ _) ?_,
    ⟨produces.typed, plain, complete, ?_⟩, ?_, ⟨produces.fits, trivial⟩,
    ⟨produces.valid, valid⟩⟩
  · simpa [Code.emissions]
      using produces.holds.emit emission complete inRange line
  · rw [produces.height]
    exact enough
  · simp only [Code.heightAfter, produces.height]

/-! ## Results of statements -/

/-- If the draft remembers a removable instruction, the code ends in the push of
nil, and it is still typed without it. -/
def Droppable (later : Nest) (code : Code) : Prop :=
  later.current.removable ≠ none →
    ∃ shorter : Code, code.emissions = shorter.emissions ++ [⟨.pushNil, []⟩] ∧
      shorter.Typed 0 ∧
      shorter.heightAfter 0 = 0 ∧ shorter.Fits ∧
      shorter.Valid later.current.pools

/-- What lowering an expression comes to. -/
def Yields (held : List Emission) (nest later : Nest) : Prop :=
  ∃ code, Produces held nest later 1 code ∧ Droppable later code

theorem Produces.yields {code : Code}
    (produces : Produces held nest later 1 code)
    (fixed : later.current.removable = none) :
    Yields held nest later :=
  ⟨code, produces, fun remembered => (remembered fixed).elim⟩

/-- Throwing the result of an expression away leaves the height as it was. -/
theorem Yields.discard
    (yields : Yields held nest later)
    (nils : StatementNils) (line : UInt32) :
    ∃ code, Produces held nest (later.discard nils line) 0 code := by
  obtain ⟨code, produces, droppable⟩ := yields
  have popped : ∃ code, Produces held nest (later.emit .pop [] line) 0 code :=
    ⟨_, produces.emit ⟨.pop, []⟩ rfl rfl (Nat.le_refl _) trivial line⟩
  unfold Nest.discard Draft.discard
  split
  next offset remembered =>
    split
    · obtain ⟨shorter, parts, typed, height, fits, valid⟩ :=
        droppable (by rw [remembered]; exact Option.some_ne_none _)
      have holds := produces.holds
      rw [parts, ← List.append_assoc] at holds
      refine ⟨shorter, ?_, typed, height, fits, valid⟩
      apply produces.toLowers.write
      · exact ⟨rfl, rfl, rfl, rfl, rfl, rfl, rfl, rfl⟩
      · exact holds.pop rfl rfl rfl rfl
    · exact popped
  next => exact popped

/-- The push of a statement's result may be removed again. -/
theorem Produces.statementNil {code : Code}
    (produces : Produces held nest later 0 code)
    (line : UInt32) :
    Yields held nest (later.emitStatementNil line) := by
  have emitted := produces.emit ⟨.pushNil, []⟩ rfl rfl
    (Nat.zero_le _) trivial line
  refine ⟨_, ⟨?_, emitted.typed, emitted.height, emitted.fits, emitted.valid⟩,
    fun _ => ?_⟩
  · apply emitted.toLowers.write
    · exact ⟨rfl, rfl, rfl, rfl, rfl, rfl, rfl, rfl⟩
    · exact ⟨emitted.holds.bytes, emitted.holds.complete, emitted.holds.inRange⟩
  · exact ⟨code, rfl, produces.typed, produces.height, produces.fits,
      produces.valid⟩

/-! ## Names and constants -/

theorem Produces.nameIndex {rise : Nat} {code : Code}
    (produces : Produces held nest later rise code)
    {name : String} {line : UInt32} {index : UInt8}
    (named : later.nameIndex name line = .ok (index, last)) :
    Produces held nest last rise code ∧ later.current.Grows last.current ∧
      index.toNat < last.current.names.length := by
  obtain ⟨⟨_, draft⟩, indexed, result⟩ := Outcome.bind_eq_ok.1 named
  cases result
  obtain ⟨sound, keeps, present, captures⟩ :=
    produces.linked.sound.nameIndex indexed
  exact ⟨produces.keep (produces.linked.replace sound captures) keeps
    (List.forall₂_same.2 fun draft _ => .refl draft), keeps.toGrows, present⟩

/-- Appending an operation on a name. -/
theorem Produces.emitNamed {rise : Nat} {code : Code}
    (produces : Produces held nest later rise code)
    {opcode : Opcode} {name : String} {line : UInt32}
    (global : opcode = .loadGlobal ∨ opcode = .storeGlobal ∨ opcode = .perform)
    (enough : (⟨opcode, []⟩ : Emission).pops ≤ rise)
    (named : later.emitNamed opcode name line = .ok last) :
    ∃ code, Produces held nest last
      (rise - (⟨opcode, []⟩ : Emission).pops + (⟨opcode, []⟩ : Emission).pushes)
        code := by
  obtain ⟨⟨index, indexed⟩, found, result⟩ := Outcome.bind_eq_ok.1 named
  cases result
  obtain ⟨kept, _, present⟩ := produces.nameIndex found
  rcases global with rfl | rfl | rfl
  · exact ⟨_, kept.emit ⟨.loadGlobal, [index]⟩ rfl rfl enough present line⟩
  · exact ⟨_, kept.emit ⟨.storeGlobal, [index]⟩ rfl rfl enough present line⟩
  · exact ⟨_, kept.emit ⟨.perform, [index]⟩ rfl rfl enough present line⟩

/-- Appending the push of a scalar constant. -/
theorem Produces.emitConstant {rise : Nat} {code : Code}
    (produces : Produces held nest later rise code)
    {value : Value} {line : UInt32}
    (scalar : value.isScalar)
    (emitted : later.emitConstant value line = .ok last) :
    (∃ code, Produces held nest last (rise + 1) code) ∧
      last.current.removable = none := by
  obtain ⟨⟨index, draft⟩, pooled, result⟩ := Outcome.bind_eq_ok.1 emitted
  cases result
  obtain ⟨sound, keeps, captures, present⟩ :=
    produces.linked.sound.addConstant pooled (by rintro _ _ rfl; cases scalar)
  have pooledNest : Produces held nest { later with current := draft }
      rise code :=
    produces.keep (produces.linked.replace sound captures) keeps
      (List.forall₂_same.2 fun draft _ => .refl draft)
  exact ⟨⟨_, pooledNest.emit ⟨.loadConst, [index]⟩ rfl rfl (Nat.zero_le _)
    ⟨value, present, scalar⟩ line⟩, rfl⟩

theorem Produces.resolve {rise : Nat} {code : Code}
    (produces : Produces held nest later rise code)
    {name : String} {line : UInt32} {found : Option UInt8}
    (resolved : later.resolve name line = .ok (found, last)) :
    Produces held nest last rise code ∧
      ∀ slot, found = some slot → slot.toNat < last.current.slots.length := by
  obtain ⟨⟨_, current, enclosing⟩, searched, result⟩ :=
    Outcome.bind_eq_ok.1 resolved
  cases result
  obtain ⟨linked, keeps, enclosingKeep, below⟩ :=
    resolveFrom_spec produces.linked searched
  exact ⟨produces.keep linked keeps enclosingKeep, below⟩

/-- Reading a variable pushes one value. -/
theorem Ready.loadVariable
    (ready : nest.Ready held)
    {name : String} {line : UInt32}
    (loaded : nest.loadVariable name line = .ok later) :
    Yields held nest later := by
  unfold Nest.loadVariable at loaded
  split at loaded
  · cases loaded
  · obtain ⟨⟨found, resolved⟩, resolves, emitted⟩ := Outcome.bind_eq_ok.1 loaded
    obtain ⟨produces, below⟩ := ready.nothing.resolve resolves
    cases found with
    | none =>
        obtain ⟨code, named⟩ :=
          produces.emitNamed (.inl rfl) (Nat.zero_le _) emitted
        refine named.yields ?_
        obtain ⟨⟨index, indexed⟩, _, result⟩ := Outcome.bind_eq_ok.1 emitted
        cases result
        rfl
    | some slot =>
        cases emitted
        have access := produces.emit ⟨.loadLocal, [slot]⟩ rfl rfl
          (Nat.zero_le _) (below slot rfl) line
        rw [Draft.written_loadLocal] at access
        exact access.yields rfl

theorem Produces.storeTarget {rise : Nat} {code : Code}
    (produces : Produces held nest later rise code)
    {name : String} {line : UInt32} {target : StoreTarget}
    (targeted : later.storeTarget name line = .ok (target, last)) :
    Produces held nest last rise code ∧
    StoreTarget.Valid last.current.pools target := by
  obtain ⟨⟨found, resolved⟩, resolves, rest⟩ := Outcome.bind_eq_ok.1 targeted
  obtain ⟨kept, below⟩ := produces.resolve resolves
  cases found with
  | some slot =>
      cases rest
      exact ⟨kept, below slot rfl⟩
  | none =>
      simp only at rest
      split at rest
      · obtain ⟨⟨index, named⟩, indexed, result⟩ := Outcome.bind_eq_ok.1 rest
        cases result
        obtain ⟨namedKept, _, present⟩ := kept.nameIndex indexed
        exact ⟨namedKept, present⟩
      · obtain ⟨⟨slot, draft⟩, declared, result⟩ := Outcome.bind_eq_ok.1 rest
        cases result
        obtain ⟨sound, keeps, slotEq, draftEq⟩ :=
          kept.linked.sound.declare declared
        refine ⟨kept.keep (kept.linked.replace sound (by rw [draftEq]; rfl))
          keeps
          (List.forall₂_same.2 fun draft _ => .refl draft), ?_⟩
        simp only [StoreTarget.Valid, Draft.pools, slotEq, draftEq,
          Draft.length_slots_addSlot]
        omega

/-- Writing a variable takes one value. -/
theorem Produces.emitStore {rise : Nat} {code : Code}
    (produces : Produces held nest later (rise + 1) code)
    {target : StoreTarget}
    (valid : target.Valid later.current.pools)
    (line : UInt32) :
    ∃ code, Produces held nest (later.emitStore target line) rise code := by
  cases target with
  | slot slot =>
      have access := produces.emit ⟨.storeLocal, [slot]⟩ rfl rfl
        (Nat.le_add_left _ _) valid line
      rw [Draft.written_storeLocal] at access
      exact ⟨_, access⟩
  | global index =>
      exact ⟨_, produces.emit ⟨.storeGlobal, [index]⟩ rfl rfl
        (Nat.le_add_left _ _) valid line⟩

/-! ## Functions -/

theorem forall₂_cons_split {draft : Draft}
    {drafts later : List Draft}
    (keeps : List.Forall₂ Draft.Keeps (draft :: drafts) later) :
    ∃ laterDraft laterDrafts, later = laterDraft :: laterDrafts ∧
      draft.Keeps laterDraft ∧
      List.Forall₂ Draft.Keeps drafts laterDrafts := by
  cases keeps with
  | cons head tail => exact ⟨_, _, rfl, head, tail⟩

/-- A function is entered with a comment that tells its name. -/
theorem Ready.enter
    (ready : nest.Ready held)
    {name : String} {parameters : List String} {line : UInt32} {draft : Draft}
    (started : Draft.start name parameters line = .ok draft) :
    (nest.enter draft line).Ready [⟨.comment, []⟩] := by
  obtain ⟨sound, holds, _, captures⟩ := Draft.start_spec started
  have alike : draft.Alike (nest.enter draft line).current :=
    ⟨rfl, rfl, rfl, rfl, rfl, rfl, rfl, rfl⟩
  have commented : (draft.emit .comment [] line).Holds
      ([] ++ [⟨.comment, []⟩]) :=
    holds.emit_plain rfl rfl line
  refine ⟨⟨alike.sound sound, ?_, ready.linked⟩,
    ⟨commented.bytes, commented.complete, commented.inRange⟩⟩
  have noCaptures : (nest.enter draft line).current.captures = [] :=
    alike.captures.trans captures
  simp [noCaptures]

/-- Ending a function goes back to the one around it. -/
theorem leave_eq {body : Nest} {outerLater : Draft}
    {beyond : List Draft}
    (enclosing : body.enclosing = outerLater :: beyond)
    (outer : Nest) (line : UInt32) :
    (body.leave outer line).2.current = outerLater ∧
    (body.leave outer line).2.enclosing = beyond := by
  have same : (body.emitReturn line).enclosing = outerLater ::
      beyond := enclosing
  simp [Nest.leave, same]

/-- A function whose body is lowered inside another one becomes a sound
template, and a closure of it is one more value. -/
theorem Produces.function {rise : Nat} {code : Code}
    {outer body pushed : Nest}
    (produces : Produces held nest outer rise code)
    {name : String} {parameters : List String} {line : UInt32} {draft : Draft}
    (started : Draft.start name parameters line = .ok draft)
    (lowered : ∀ {inner}, (outer.enter draft line).Ready inner →
      Yields inner (outer.enter draft line) body)
    (emitted : (body.leave outer line).2.emitClosure (body.leave outer line).1
      line = .ok pushed) :
    ∃ index template,
      Produces held nest pushed (rise + 1)
        (code.sequence (.plain ⟨.makeClosure, [index]⟩)) ∧
      outer.current.Grows pushed.current ∧
      pushed.current.pools.IsFunction index template ∧
      template.arity = parameters.length := by
  obtain ⟨_, _, draftArity, _⟩ := Draft.start_spec started
  have entered := produces.toReady.enter started
  obtain ⟨bodyCode, bodyProduces, _⟩ := lowered entered
  obtain ⟨outerLater, beyond, enclosingEq, outerKeeps, beyondKeeps⟩ :=
    forall₂_cons_split bodyProduces.enclosing
  -- The code of the function is a comment, the body and a return.
  have returned : (body.emitReturn line).current.Holds
      (((Code.plain ⟨.comment, []⟩).sequence bodyCode).emissions ++
        [⟨.return, []⟩]) :=
    bodyProduces.holds.emit_plain rfl rfl _
  have returnedAlike : body.current.Alike (body.emitReturn line).current :=
    Draft.alike_emit _ _ _ _
  have bodyLinked := bodyProduces.linked
  rw [enclosingEq] at bodyLinked
  have templateSound : (body.leave outer line).1.Sound := by
    apply (returnedAlike.sound bodyLinked.sound).finish
      ((Code.plain ⟨.comment, []⟩).sequence bodyCode)
    · exact ⟨⟨rfl, rfl, Nat.le_refl _⟩, bodyProduces.typed⟩
    · exact bodyProduces.height
    · exact ⟨trivial, bodyProduces.fits⟩
    · exact ⟨trivial, bodyProduces.valid.mono returnedAlike.grows.pools⟩
    · exact returned
  have closedEq := leave_eq enclosingEq outer line
  have closed : Produces held nest (body.leave outer line).2 rise code := by
    refine produces.keep ?_ ?_ ?_
    · rw [closedEq.1, closedEq.2]
      exact bodyLinked.2.2
    · rw [closedEq.1]
      exact outerKeeps
    · rw [closedEq.2]
      exact beyondKeeps
  have captures : ∀ slot ∈ (body.leave outer line).1.capturesOuter,
      slot ∈ (body.leave outer line).2.current.heapSlots := by
    intro slot member
    obtain ⟨capture, present, rfl⟩ := List.mem_map.1 member
    rw [closedEq.1]
    exact bodyLinked.2.1 capture present
  have arity : (body.leave outer line).1.arity = parameters.length :=
    bodyProduces.grows.arity.trans draftArity
  obtain ⟨⟨index, pool⟩, pooled, result⟩ := Outcome.bind_eq_ok.1 emitted
  cases result
  obtain ⟨sound, keeps, capturesEq, present⟩ :=
    closed.linked.sound.addConstant pooled
      (by rintro _ _ ⟨⟩; exact ⟨templateSound, captures⟩)
  have isFunction : pool.pools.IsFunction index (body.leave outer line).1 :=
    ⟨_, present⟩
  have pooledNest : Produces held nest
      { (body.leave outer line).2 with
        current := pool
        finished := (body.leave outer line).2.finished + 1 } rise code :=
    closed.keep (closed.linked.replace sound capturesEq) keeps
      (List.forall₂_same.2 fun draft _ => .refl draft)
  have grows : outer.current.Grows pool := by
    have outerGrows : outer.current.Grows
        (body.leave outer line).2.current := by
      rw [closedEq.1]
      exact outerKeeps.toGrows
    exact outerGrows.trans keeps.toGrows
  exact ⟨index, _, pooledNest.emit ⟨.makeClosure, [index]⟩ rfl rfl
    (Nat.zero_le _)
    ⟨_, isFunction⟩ line, grows.trans (Draft.alike_emit _ _ _ _).grows,
    isFunction, arity⟩

/-! ## Clauses -/

/-- The registrations of clauses before their distances are patched. -/
def pending : List (UInt8 × UInt8) → List Emission
  | [] => []
  | (function, effect) :: clauses =>
      ⟨.makeClosure, [function]⟩ :: ⟨.setHandler, [effect] ++ [255, 255]⟩ ::
        pending clauses

/-- Where the handlers of clauses are registered. -/
def sites : Nat → List (UInt8 × UInt8) → List Nat
  | _, [] => []
  | start, _ :: clauses => (start + 2) :: sites (start + 6) clauses

theorem totalSize_pending (clauses : List (UInt8 × UInt8)) :
    totalSize (pending clauses) = 6 * clauses.length := by
  induction clauses with
  | nil => rfl
  | cons clause clauses inner =>
      simp only [pending, totalSize_cons, inner, Emission.size,
        List.length_cons, List.length_nil, List.length_append]
      omega

/-- Patching all handlers of an attempt makes them lead to its end. -/
theorem Lowers.patchHandlers
    {clauses : List (UInt8 × UInt8)} {done rest : List Emission} {line : UInt32}
    (lowers : Lowers held (done ++ (pending clauses ++ rest)) nest later)
    (fixed : later.current.removable = none)
    (patched : later.patchHandlers line
      (sites (totalSize (held ++ done)) clauses) = .ok last) :
    Lowers held (done ++ (Code.registrations (totalSize rest) clauses ++ rest))
        nest last ∧
      last.current.removable = none ∧ later.current.Grows last.current ∧
      (clauses ≠ [] → 6 * (clauses.length - 1) + totalSize rest ≤ 65535) := by
  induction clauses generalizing done later with
  | nil =>
      cases patched
      exact ⟨lowers, fixed, .refl _, fun impossible => (impossible rfl).elim⟩
  | cons clause others inner =>
      obtain ⟨function, effect⟩ := clause
      obtain ⟨draft, first, next⟩ := Outcome.bind_eq_ok.1 patched
      have parts : done ++ (pending ((function, effect) :: others) ++ rest) =
          (done ++ [⟨.makeClosure, [function]⟩]) ++
            ⟨.setHandler, [effect] ++ [255, 255]⟩ ::
              (pending others ++ rest) := by
        simp [pending]
      rw [parts] at lowers
      obtain ⟨filled, small, filledFixed⟩ := lowers.patch rfl
        (by simp only [totalSize_append, totalSize_cons, totalSize_nil,
          Emission.size,
              List.length_cons, List.length_nil]
            omega) first
      have restSize : totalSize (pending others ++ rest) = 6 * others.length +
          totalSize rest := by
        rw [totalSize_append, totalSize_pending]
      rw [restSize] at filled small
      have onward : totalSize (held ++ done) + 6 = totalSize (held ++ (done ++
          [⟨.makeClosure, [function]⟩, ⟨.setHandler, [effect] ++
            Instruction.shortBytes
              (6 * others.length + totalSize rest)⟩])) := by
        simp only [totalSize_append, totalSize_cons, totalSize_nil,
          Emission.size, List.length_append, List.length_cons, List.length_nil,
          Instruction.shortBytes]
        omega
      rw [onward] at next
      obtain ⟨result, resultFixed, grows, _⟩ :=
        inner (by simpa using filled) filledFixed next
      refine ⟨by simpa [Code.registrations] using result, resultFixed,
        (Draft.alike_patchTo first).grows.trans grows, fun _ => ?_⟩
      simp only [List.length_cons]
      omega

/-! ## Choices and repetitions -/

/-- Patching a jump makes it lead to the end of the code. -/
theorem Lowers.patchJump {before after : List Emission}
    {opcode : Opcode} {site : Nat} {line : UInt32}
    (lowers : Lowers held (before ++ ⟨opcode, [255, 255]⟩ :: after) nest later)
    (noAccess : opcode.promoted? = none)
    (siteEq : site = totalSize (held ++ before))
    (patched : later.patchJump site line = .ok last) :
    Lowers held (before ++ ⟨opcode, Instruction.shortBytes (totalSize after)⟩ ::
        after) nest last ∧
      totalSize after ≤ 65535 ∧ later.current.Grows last.current ∧
      last.current.removable = none := by
  obtain ⟨draft, patch, result⟩ := Outcome.bind_eq_ok.1 patched
  cases result
  have placed : Lowers held (before ++ ⟨opcode, [] ++ [255, 255]⟩ :: after) nest
      later := lowers
  obtain ⟨filled, small, fixed⟩ :=
    placed.patch noAccess (by rw [siteEq]; rfl) patch
  exact ⟨filled, small, (Draft.alike_patchTo patch).grows, fixed⟩

section Jumps

variable {condition consequence alternative body : List Emission}
    {afterCondition afterConsequence elsePatched afterAlternative discarded :
      Nest} {line : UInt32}

/-- The first jump of a choice leads behind its consequence, which ends in a
jump. -/
theorem Lowers.throughConsequence
    (decides : Lowers held condition nest afterCondition)
    (chooses : Lowers (held ++ (condition ++ [⟨.jumpIfFalse, [255, 255]⟩]))
      consequence (afterCondition.emit .jumpIfFalse [255, 255] line)
        afterConsequence)
    (elseLands : (afterConsequence.emit .jump [255, 255] line).patchJump
      afterCondition.offset line = .ok elsePatched) :
    Lowers held
      (condition ++
        ⟨.jumpIfFalse, Instruction.shortBytes (totalSize consequence + 3)⟩ ::
        (consequence ++ [⟨.jump, [255, 255]⟩])) nest elsePatched ∧
      totalSize consequence + 3 ≤ 65535 ∧
      afterConsequence.current.Grows elsePatched.current := by
  have jumped : Lowers held (condition ++ [⟨.jumpIfFalse, [255, 255]⟩]) nest
      (afterCondition.emit .jumpIfFalse [255, 255] line) :=
    decides.emit rfl rfl line
  have through : Lowers held (condition ++ ⟨.jumpIfFalse, [255, 255]⟩ ::
      (consequence ++ [⟨.jump, [255, 255]⟩])) nest
        (afterConsequence.emit .jump [255, 255] line) := by
    simpa using (jumped.trans chooses).emit
      (show [255, 255].length = Opcode.jump.operandCount from rfl) rfl line
  obtain ⟨filled, small, grows, _⟩ :=
    through.patchJump rfl decides.toReady.offset elseLands
  have sizeEq : totalSize (consequence ++ [⟨.jump, [255, 255]⟩]) =
      totalSize consequence + 3 := by
    rw [totalSize_append]
    rfl
  rw [sizeEq] at filled small
  exact ⟨filled, small, (Draft.alike_emit _ _ _ _).grows.trans grows⟩

/-- The jump behind the consequence of a choice leads behind its alternative. -/
theorem Lowers.throughAlternative {distance : Nat}
    (chooses : Lowers held
      (condition ++ ⟨.jumpIfFalse, Instruction.shortBytes distance⟩ ::
        (consequence ++ [⟨.jump, [255, 255]⟩])) nest elsePatched)
    (otherwise : Lowers
      (held ++ (condition ++ ⟨.jumpIfFalse, Instruction.shortBytes distance⟩ ::
        (consequence ++ [⟨.jump, [255, 255]⟩])))
      alternative elsePatched afterAlternative)
    (offset : afterConsequence.offset = totalSize
      (held ++ (condition ++ [⟨.jumpIfFalse, [255, 255]⟩]) ++ consequence))
    (endLands : afterAlternative.patchJump afterConsequence.offset
      line = .ok last) :
    Lowers held (condition ++ ⟨.jumpIfFalse, Instruction.shortBytes distance⟩ ::
        (consequence ++ ⟨.jump,
          Instruction.shortBytes (totalSize alternative)⟩ :: alternative))
        nest last ∧
      totalSize alternative ≤ 65535 ∧
      afterAlternative.current.Grows last.current ∧
      last.current.removable = none := by
  have whole : Lowers held ((condition ++
      ⟨.jumpIfFalse, Instruction.shortBytes distance⟩ :: consequence) ++
      ⟨.jump, [255, 255]⟩ :: alternative) nest afterAlternative := by
    simpa using chooses.trans otherwise
  have endSite : afterConsequence.offset = totalSize (held ++ (condition ++
      ⟨.jumpIfFalse, Instruction.shortBytes distance⟩ :: consequence)) := by
    rw [offset]
    simp [Emission.size, Instruction.shortBytes]
  obtain ⟨finished, small, grows, fixed⟩ := whole.patchJump rfl endSite endLands
  exact ⟨by simpa using finished, small, grows, fixed⟩

/-- A repetition jumps back to its condition, which leads behind it. -/
theorem Lowers.throughLoop {looped : Draft}
    (ready : nest.Ready held)
    (decides : Lowers held condition nest afterCondition)
    (repeats : Lowers (held ++ (condition ++ [⟨.jumpIfFalse, [255, 255]⟩])) body
      (afterCondition.emit .jumpIfFalse [255, 255] line) discarded)
    (returns : discarded.current.emitLoop nest.offset line = .ok looped)
    (exitLands : ({ discarded with current := looped } : Nest).patchJump
      afterCondition.offset line = .ok last) :
    Lowers held
      (condition ++
        ⟨.jumpIfFalse, Instruction.shortBytes (totalSize body + 3)⟩ ::
        (body ++
          [⟨.loop, Instruction.shortBytes
            (totalSize condition + 3 + totalSize body + 3)⟩]))
        nest last ∧
      totalSize condition + 3 + totalSize body + 3 ≤ 65535 ∧
      discarded.current.Grows last.current := by
  have jumped : Lowers held (condition ++ [⟨.jumpIfFalse, [255, 255]⟩]) nest
      (afterCondition.emit .jumpIfFalse [255, 255] line) :=
    decides.emit rfl rfl line
  have distance : discarded.current.code.size + 3 - nest.offset =
      totalSize condition + 3 + totalSize body + 3 := by
    have bodyOffset : discarded.current.code.size = _ := repeats.toReady.offset
    rw [bodyOffset, ready.offset]
    simp [Emission.size]
    omega
  simp only [Draft.emitLoop, distance] at returns
  split at returns
  next small =>
    cases returns
    have through : Lowers held (condition ++ ⟨.jumpIfFalse, [255, 255]⟩ ::
        (body ++ [⟨.loop,
          Instruction.shortBytes
            (totalSize condition + 3 + totalSize body + 3)⟩])) nest
        (discarded.emit .loop
          (Instruction.shortBytes
            (totalSize condition + 3 + totalSize body + 3)) line) := by
      simpa using (jumped.trans repeats).emit
        (show (Instruction.shortBytes _).length = Opcode.loop.operandCount
          from rfl) rfl line
    obtain ⟨finished, _, grows, _⟩ :=
      through.patchJump rfl decides.toReady.offset exitLands
    refine ⟨?_, small, (Draft.alike_emit _ _ _ _).grows.trans grows⟩
    simpa [Emission.size, Instruction.shortBytes] using finished
  next => cases returns

end Jumps

theorem Yields.branch
    {afterCondition afterConsequence elsePatched afterAlternative : Nest}
    {line : UInt32}
    (condition : Yields held nest afterCondition)
    (consequence : ∀ {inner},
      (afterCondition.emit .jumpIfFalse [255, 255] line).Ready inner →
      Yields inner (afterCondition.emit .jumpIfFalse [255, 255] line)
        afterConsequence)
    (elseLands : (afterConsequence.emit .jump [255, 255] line).patchJump
      afterCondition.offset line = .ok elsePatched)
    (alternative : ∀ {inner}, elsePatched.Ready inner →
      Yields inner elsePatched afterAlternative)
    (endLands : afterAlternative.patchJump afterConsequence.offset
      line = .ok last) :
    Yields held nest last := by
  obtain ⟨conditionCode, conditionProduces, _⟩ := condition
  have jumped :
      Lowers held (conditionCode.emissions ++ [⟨.jumpIfFalse, [255, 255]⟩]) nest
      (afterCondition.emit .jumpIfFalse [255, 255] line) :=
    conditionProduces.toLowers.emit rfl rfl line
  obtain ⟨consequenceCode, consequenceProduces, _⟩ := consequence jumped.toReady
  obtain ⟨chosen, consequenceSmall, elseGrows⟩ :=
    conditionProduces.toLowers.throughConsequence
      consequenceProduces.toLowers elseLands
  obtain ⟨alternativeCode, alternativeProduces, _⟩ := alternative chosen.toReady
  obtain ⟨finished, alternativeSmall, endGrows, fixed⟩ :=
    chosen.throughAlternative alternativeProduces.toLowers
      consequenceProduces.toReady.offset endLands
  simp only [Code.totalSize_emissions]
    at finished consequenceSmall alternativeSmall
  have consequenceGrows : afterConsequence.current.Grows last.current :=
    elseGrows.trans (alternativeProduces.grows.trans endGrows)
  have conditionGrows : afterCondition.current.Grows last.current :=
    (Draft.alike_emit _ _ _ _).grows.trans
      (consequenceProduces.grows.trans consequenceGrows)
  have produced : Produces held nest last 1
      (.branch conditionCode consequenceCode alternativeCode) := by
    refine ⟨finished, ?_, ?_, ?_, ?_⟩
    · have conditionHeight := conditionProduces.height
      refine ⟨conditionProduces.typed, by omega, ?_, ?_, ?_⟩
      · rw [conditionHeight]
        exact consequenceProduces.typed
      · rw [conditionHeight]
        exact alternativeProduces.typed
      · rw [conditionHeight]
        exact alternativeProduces.height.trans consequenceProduces.height.symm
    · simp only [Code.heightAfter, conditionProduces.height]
      exact consequenceProduces.height
    · exact ⟨conditionProduces.fits, consequenceProduces.fits,
        alternativeProduces.fits, consequenceSmall, alternativeSmall⟩
    · exact ⟨conditionProduces.valid.mono conditionGrows.pools,
        consequenceProduces.valid.mono consequenceGrows.pools,
        alternativeProduces.valid.mono endGrows.pools⟩
  exact produced.yields fixed

theorem Yields.loop {afterCondition afterBody : Nest}
    {looped : Draft} {nils : StatementNils} {line : UInt32}
    (ready : nest.Ready held)
    (condition : Yields held nest afterCondition)
    (body : ∀ {inner}, (afterCondition.emit .jumpIfFalse [255, 255] line).Ready
      inner → Yields inner
        (afterCondition.emit .jumpIfFalse [255, 255] line) afterBody)
    (returns : (afterBody.discard nils line).current.emitLoop nest.offset
      line = .ok looped)
    (exitLands :
      ({ afterBody.discard nils line with current := looped } : Nest).patchJump
        afterCondition.offset line = .ok last) :
    ∃ code, Produces held nest last 0 code := by
  obtain ⟨conditionCode, conditionProduces, _⟩ := condition
  have jumped :
      Lowers held (conditionCode.emissions ++ [⟨.jumpIfFalse, [255, 255]⟩]) nest
      (afterCondition.emit .jumpIfFalse [255, 255] line) :=
    conditionProduces.toLowers.emit rfl rfl line
  obtain ⟨bodyCode, bodyProduces⟩ := (body jumped.toReady).discard nils line
  obtain ⟨finished, small, bodyGrows⟩ :=
    conditionProduces.toLowers.throughLoop ready bodyProduces.toLowers
      returns exitLands
  simp only [Code.totalSize_emissions] at finished small
  have conditionGrows : afterCondition.current.Grows last.current :=
    (Draft.alike_emit _ _ _ _).grows.trans (bodyProduces.grows.trans bodyGrows)
  exact ⟨.loop conditionCode bodyCode, finished,
    ⟨conditionProduces.typed, conditionProduces.height, bodyProduces.typed,
      bodyProduces.height⟩, rfl,
    ⟨conditionProduces.fits, bodyProduces.fits, small⟩,
    ⟨conditionProduces.valid.mono conditionGrows.pools,
      bodyProduces.valid.mono bodyGrows.pools⟩⟩

/-- Registering the clauses of an attempt. The distances are still to be
patched. -/
structure Registers
    (held : List Emission) (nest later : Nest)
    (clauses : List (UInt8 × UInt8)) :
    Prop extends Lowers held (pending clauses) nest later where
  valid : ∀ clause ∈ clauses, clause.2.toNat < later.current.names.length ∧
    ∃ template, later.current.pools.IsFunction clause.1 template ∧
      template.arity = 1

theorem Registers.attempt {clauses : List (UInt8 × UInt8)}
    {registered afterBody : Nest} {line : UInt32}
    (registers : Registers held nest registered clauses)
    (few : clauses.length ≤ 255)
    (body : ∀ {inner}, registered.Ready inner →
      Yields inner registered afterBody)
    (lands :
      (afterBody.emit .popHandlers [UInt8.ofNat clauses.length]
        line).patchHandlers line (sites (totalSize held) clauses) = .ok last) :
    Yields held nest last := by
  obtain ⟨bodyCode, bodyProduces, _⟩ := body registers.toReady
  have through : Lowers held ([] ++ (pending clauses ++ (bodyCode.emissions ++
      [⟨.popHandlers, [UInt8.ofNat clauses.length]⟩]))) nest
      (afterBody.emit .popHandlers [UInt8.ofNat clauses.length] line) := by
    simpa using (registers.toLowers.trans bodyProduces.toLowers).emit
      (show [UInt8.ofNat clauses.length].length =
        Opcode.popHandlers.operandCount from rfl) rfl line
  obtain ⟨finished, fixed, grows, small⟩ :=
    through.patchHandlers rfl (by simpa using lands)
  have bodyGrows : afterBody.current.Grows last.current :=
    (Draft.alike_emit _ _ _ _).grows.trans grows
  have bodyValid := bodyProduces.valid.mono bodyGrows.pools
  have registeredGrows := bodyProduces.grows.trans bodyGrows
  by_cases none : clauses = []
  · -- Without clauses nothing is registered and nothing is removed.
    subst none
    have produced : Produces held nest last 1
        (bodyCode.sequence (.plain ⟨.popHandlers, [0]⟩)) := by
      refine ⟨finished, ⟨bodyProduces.typed, rfl, rfl, Nat.zero_le _⟩, ?_,
        ⟨bodyProduces.fits, trivial⟩, ⟨bodyValid, trivial⟩⟩
      simp only [Code.heightAfter, bodyProduces.height]
      rfl
    exact produced.yields fixed
  · have produced : Produces held nest last 1 (.attempt clauses bodyCode) := by
      refine ⟨?_, ⟨none, bodyProduces.typed, bodyProduces.height⟩, rfl, ?_,
        ?_, bodyValid⟩
      · simpa [Code.emissions, Emission.size] using finished
      · refine ⟨bodyProduces.fits, few, fun some => ?_⟩
        have room := small some
        simp [Emission.size] at room
        omega
      · intro clause member
        obtain ⟨named, template, ⟨identity, held⟩, single⟩ :=
          registers.valid clause member
        exact ⟨Nat.lt_of_lt_of_le named registeredGrows.pools.names.length_le,
          template, ⟨identity, registeredGrows.pools.constant held⟩, single⟩
    exact produced.yields fixed

/-! ## Expressions -/

/-- Appending an operation without operands. -/
theorem Produces.operate {rise : Nat} {code : Code}
    (produces : Produces held nest later rise code)
    (opcode : Opcode)
    (plain : (⟨opcode, []⟩ : Emission).isPlain)
    (noAccess : opcode.promoted? = none)
    (complete : (⟨opcode, []⟩ : Emission).Complete)
    (enough : (⟨opcode, []⟩ : Emission).pops ≤ rise)
    (valid : (⟨opcode, []⟩ : Emission).Valid later.current.pools)
    (line : UInt32) :
    ∃ code, Produces held nest (later.emit opcode [] line)
      (rise - (⟨opcode, []⟩ : Emission).pops + (⟨opcode, []⟩ : Emission).pushes)
        code := by
  have emitted := produces.emit ⟨opcode, []⟩ plain complete enough valid line
  rw [Emission.written_of_promoted?_eq_none noAccess] at emitted
  exact ⟨_, emitted⟩

theorem Ready.pushNil (ready : nest.Ready held) (line : UInt32) :
    Yields held nest (nest.emit .pushNil [] line) := by
  obtain ⟨code, pushed⟩ :=
    ready.nothing.operate .pushNil rfl rfl rfl (Nat.zero_le _) trivial line
  exact pushed.yields rfl

theorem Ready.literal
    (ready : nest.Ready held)
    {value : Literal} {line : UInt32}
    (pushed : nest.literal value line = .ok later) :
    Yields held nest later := by
  have scalar {constant : Value} (isScalar : constant.isScalar)
      (emitted : nest.emitConstant constant line = .ok later) :
        Yields held nest later := by
    obtain ⟨⟨code, produces⟩, fixed⟩ :=
      ready.nothing.emitConstant isScalar emitted
    exact produces.yields fixed
  cases value with
  | nil =>
      cases pushed
      exact ready.pushNil line
  | bool truth =>
      cases truth with
      | false =>
          cases pushed
          obtain ⟨code, produces⟩ :=
            ready.nothing.operate .pushFalse rfl rfl rfl
              (Nat.zero_le _) trivial line
          exact produces.yields rfl
      | true =>
          cases pushed
          obtain ⟨code, produces⟩ :=
            ready.nothing.operate .pushTrue rfl rfl rfl
              (Nat.zero_le _) trivial line
          exact produces.yields rfl
  | int number => exact scalar rfl pushed
  | str text => exact scalar rfl pushed
  | float number => cases pushed

/-- An operator takes two values and leaves one. -/
theorem Produces.binary {code : Code}
    (produces : Produces held nest later 2 code)
    (op : BinaryOp) (line : UInt32) :
    Yields held nest
      (if op.negated then (later.emit op.opcode [] line).emit .not [] line
      else later.emit op.opcode [] line) := by
  obtain ⟨code, applied⟩ :=
    produces.operate op.opcode (by cases op <;> rfl) (by cases op <;> rfl)
    (by cases op <;> rfl) (by cases op <;> exact Nat.le_refl _)
      (by cases op <;> trivial) line
  have height : 2 - (⟨op.opcode, []⟩ : Emission).pops +
      (⟨op.opcode, []⟩ : Emission).pushes = 1 := by
    cases op <;> rfl
  rw [height] at applied
  split
  · obtain ⟨code, negated⟩ :=
      applied.operate .not rfl rfl rfl (Nat.le_refl _) trivial line
    exact negated.yields rfl
  · exact applied.yields rfl

/-- A prefix operator takes one value and leaves one. -/
theorem Produces.unary {code : Code}
    (produces : Produces held nest later 1 code)
    (op : UnaryOp) (line : UInt32) :
    Yields held nest (later.emit op.opcode [] line) := by
  obtain ⟨code, applied⟩ :=
    produces.operate op.opcode (by cases op <;> rfl) (by cases op <;> rfl)
    (by cases op <;> rfl) (by cases op <;> exact Nat.le_refl _)
      (by cases op <;> trivial) line
  have height : 1 - (⟨op.opcode, []⟩ : Emission).pops +
      (⟨op.opcode, []⟩ : Emission).pushes = 1 := by
    cases op <;> rfl
  rw [height] at applied
  exact applied.yields rfl

/-- A call takes the callee with its arguments and leaves one value. -/
theorem Produces.call {code : Code} {count : Nat}
    (few : count ≤ 255)
    (produces : Produces held nest later (1 + count) code)
    (line : UInt32) :
    Yields held nest (later.emit .call [UInt8.ofNat count] line) := by
  have countEq : (⟨.call, [UInt8.ofNat count]⟩ : Emission).pops = count + 1 :=
    congrArg (· + 1) (UInt8.toNat_ofNat_of_lt' (Nat.lt_succ_of_le few))
  have called := produces.emit ⟨.call, [UInt8.ofNat count]⟩ rfl rfl
    (by omega) trivial line
  have height : 1 + count - (⟨.call, [UInt8.ofNat count]⟩ : Emission).pops +
      (⟨.call, [UInt8.ofNat count]⟩ : Emission).pushes = 1 := by
    rw [countEq]
    simp only [Emission.pushes]
    omega
  rw [height] at called
  exact called.yields rfl

/-- Registering one more clause before others. -/
theorem Registers.cons {function effect : UInt8}
    {clauses : List (UInt8 × UInt8)} {template : Template} {line : UInt32}
    {code : Code}
    (emissions : code.emissions = [⟨.makeClosure, [function]⟩])
    (produces : Produces held nest later 1 code)
    (named : effect.toNat < later.current.names.length)
    (isFunction : later.current.pools.IsFunction function template)
    (arity : template.arity = 1)
    (registers : Registers (held ++ pending [(function, effect)])
      (later.emit .setHandler [effect, 255, 255] line) last clauses) :
    Registers held nest last ((function, effect) :: clauses) := by
  have first : Lowers held (pending [(function, effect)]) nest
      (later.emit .setHandler [effect, 255, 255] line) := by
    have pushed := produces.toLowers
    rw [emissions] at pushed
    exact pushed.emit rfl rfl line
  have grows : later.current.Grows last.current :=
    (Draft.alike_emit _ _ _ _).grows.trans registers.grows
  refine ⟨first.trans registers.toLowers, ?_⟩
  intro clause member
  rcases List.mem_cons.1 member with rfl | old
  · obtain ⟨identity, present⟩ := isFunction
    exact ⟨Nat.lt_of_lt_of_le named grows.pools.names.length_le, template,
      ⟨identity, grows.pools.constant present⟩, arity⟩
  · exact registers.valid clause old

/-- A label writes nothing. -/
theorem Ready.label (ready : nest.Ready held) :
    ({ nest with current := nest.current.label } : Nest).Ready held :=
  have alike : nest.current.Alike nest.current.label :=
    ⟨rfl, rfl, rfl, rfl, rfl, rfl, rfl, rfl⟩
  ⟨ready.linked.replace (alike.sound ready.linked.sound) rfl,
    ⟨ready.holds.bytes, ready.holds.complete, ready.holds.inRange⟩⟩

theorem Lowers.fromLabel
    (lowers : Lowers held new
      { nest with current := nest.current.label } last) :
    Lowers held new nest last :=
  ⟨lowers.toReady, ⟨lowers.grows.arity, lowers.grows.pools, lowers.grows.heap⟩,
    lowers.enclosing⟩

theorem Produces.fromLabel {rise : Nat} {code : Code}
    (produces : Produces held { nest with current := nest.current.label } last
      rise code) :
    Produces held nest last rise code :=
  ⟨produces.toLowers.fromLabel, produces.typed, produces.height, produces.fits,
    produces.valid⟩

theorem Produces.then {rise : Nat} {code : Code}
    (early : Produces held nest later rise code)
    (late : Yields (held ++ code.emissions) later last)
    (level : rise = 0) :
    Yields held nest last := by
  subst level
  obtain ⟨lateCode, lateProduces, droppable⟩ := late
  refine ⟨code.sequence lateCode, early.sequence lateProduces,
    fun remembered => ?_⟩
  obtain ⟨shorter, parts, typed, height, fits, valid⟩ := droppable remembered
  refine ⟨code.sequence shorter, ?_, ⟨early.typed, ?_⟩, ?_, ⟨early.fits, fits⟩,
    ⟨early.valid.mono lateProduces.grows.pools, valid⟩⟩
  · simp only [Code.emissions, parts, List.append_assoc]
  · rw [early.height]
    exact typed
  · simp only [Code.heightAfter, early.height, height]

end Nest

open Nest

mutual

/-- The code of an expression leaves one more value. -/
theorem lowerExpr_yields {nils : StatementNils}
    (expression : Expr)
    {held : List Emission} {nest later : Nest}
    (ready : nest.Ready held)
    (lowered : lowerExpr nils expression nest = .ok later) :
    Yields held nest later := by
  cases expression with
  | ident name position =>
      simp only [lowerExpr] at lowered
      exact ready.loadVariable lowered
  | literal value position =>
      simp only [lowerExpr] at lowered
      exact ready.literal lowered
  | binary op left right position =>
      obtain ⟨afterLeft, afterRight, leftLowered, rightLowered, rfl⟩ :=
        Lowered.binary lowered
      obtain ⟨leftCode, leftProduces, _⟩ :=
        lowerExpr_yields left ready leftLowered
      obtain ⟨rightCode, rightProduces, _⟩ :=
        lowerExpr_yields right leftProduces.toReady rightLowered
      exact (leftProduces.sequence rightProduces).binary op _
  | unary op operand position =>
      obtain ⟨afterOperand, operandLowered, rfl⟩ := Lowered.unary lowered
      obtain ⟨code, produces, _⟩ :=
        lowerExpr_yields operand ready operandLowered
      exact produces.unary op _
  | call callee arguments position =>
      obtain ⟨afterCallee, afterArguments, calleeLowered, argumentsLowered,
          few, rfl⟩ := Lowered.call lowered
      obtain ⟨calleeCode, calleeProduces, _⟩ :=
        lowerExpr_yields callee ready calleeLowered
      obtain ⟨argumentsCode, argumentsProduces⟩ :=
        lowerArguments_produces arguments calleeProduces.toReady
          argumentsLowered
      exact (calleeProduces.sequence argumentsProduces).call few _
  | assign target value position =>
      obtain ⟨name, place, afterValue, slot, targeted, rfl, valueLowered,
          found, rfl⟩ := Lowered.assign lowered
      obtain ⟨code, produces, _⟩ := lowerExpr_yields value ready valueLowered
      obtain ⟨targetProduces, targetValid⟩ := produces.storeTarget found
      obtain ⟨storeCode, stored⟩ :=
        targetProduces.emitStore targetValid position.debugLine
      exact stored.statementNil _
  | define name parameters body position =>
      obtain ⟨slot, targeted, draft, afterBody, pushed, found, started,
          bodyLowered, emitted, rfl⟩ := Lowered.define lowered
      obtain ⟨targetProduces, targetValid⟩ := ready.nothing.storeTarget found
      obtain ⟨index, template, produces, grows, _⟩ :=
        targetProduces.function started
        (fun entered => lowerBlock_yields body entered bodyLowered) emitted
      obtain ⟨storeCode, stored⟩ :=
        produces.emitStore (targetValid.mono grows.pools) position.debugLine
      exact stored.statementNil _
  | block body =>
      simp only [lowerExpr] at lowered
      exact lowerBlock_yields body ready lowered
  | branch condition consequence alternative position =>
      obtain ⟨_, _, _, _, conditionLowered, consequenceLowered, elseLands,
        alternativeLowered, endLands⟩ := Lowered.branch lowered
      exact (lowerExpr_yields condition ready conditionLowered).branch
        (fun inside => lowerBlock_yields consequence inside consequenceLowered)
        elseLands
        (fun inside => lowerOptional_yields alternative inside
          alternativeLowered) endLands
  | loop condition body position =>
      obtain ⟨_, _, _, _, conditionLowered, bodyLowered, returns, exitLands,
        rfl⟩ := Lowered.loop lowered
      have labelled := ready.label
      obtain ⟨loopCode, loopProduces⟩ :=
        (lowerExpr_yields condition labelled conditionLowered).loop labelled
          (fun inside => lowerBlock_yields body inside bodyLowered)
            returns exitLands
      exact loopProduces.fromLabel.statementNil _
  | attempt body clauses position =>
      obtain ⟨few, _, _, _, clausesLowered, bodyLowered, lands⟩ :=
        Lowered.attempt lowered
      obtain ⟨pairs, registers, rfl, count⟩ :=
        lowerClauses_registers clauses ready clausesLowered
      rw [← count] at few lands
      exact registers.attempt few
        (fun inside => lowerBlock_yields body inside bodyLowered) lands
  | perform effect payload position =>
      obtain ⟨afterPayload, payloadLowered, emitted⟩ := Lowered.perform lowered
      obtain ⟨code, produces, _⟩ :=
        lowerOptional_yields payload ready payloadLowered
      obtain ⟨performCode, performed⟩ :=
        produces.emitNamed (.inr (.inr rfl)) (Nat.le_refl _) emitted
      obtain ⟨⟨index, indexed⟩, _, result⟩ := Outcome.bind_eq_ok.1 emitted
      cases result
      exact performed.yields rfl

theorem lowerOptional_yields {nils : StatementNils}
    (expression : Option Expr)
    {line : UInt32} {held : List Emission} {nest later : Nest}
    (ready : nest.Ready held)
    (lowered : lowerOptional nils expression line nest = .ok later) :
    Yields held nest later := by
  cases expression with
  | some expression =>
      simp only [lowerOptional] at lowered
      exact lowerExpr_yields expression ready lowered
  | none =>
      simp only [lowerOptional] at lowered
      cases lowered
      exact ready.pushNil line

theorem lowerBlock_yields {nils : StatementNils}
    (block : Block)
    {held : List Emission} {nest later : Nest}
    (ready : nest.Ready held)
    (lowered : lowerBlock nils block nest = .ok later) :
    Yields held nest later := by
  obtain ⟨expressions, position⟩ := block
  rcases Lowered.block lowered with ⟨_, rfl⟩ | ⟨some, rest⟩
  · exact ready.nothing.statementNil _
  · exact lowerSequence_yields expressions some ready rest

theorem lowerSequence_yields {nils : StatementNils}
    (expressions : List Expr) (some : expressions ≠ [])
    {held : List Emission} {nest later : Nest}
    (ready : nest.Ready held)
    (lowered : lowerSequence nils expressions nest = .ok later) :
    Yields held nest later := by
  cases expressions with
  | nil => exact (some rfl).elim
  | cons first others =>
      obtain ⟨afterFirst, firstLowered, rest⟩ := Lowered.sequence lowered
      have firstYields := lowerExpr_yields first ready firstLowered
      rcases rest with ⟨_, rfl⟩ | ⟨more, rest⟩
      · exact firstYields
      · obtain ⟨code, produces⟩ :=
          firstYields.discard nils first.position.debugLine
        exact produces.then
          (lowerSequence_yields others more produces.toReady rest) rfl

/-- Every argument leaves one more value. -/
theorem lowerArguments_produces {nils : StatementNils}
    (arguments : List Expr)
    {held : List Emission} {nest later : Nest}
    (ready : nest.Ready held)
    (lowered : lowerArguments nils arguments nest = .ok later) :
    ∃ code, Produces held nest later arguments.length code := by
  cases arguments with
  | nil =>
      cases lowered
      exact ⟨_, ready.nothing⟩
  | cons first others =>
      obtain ⟨afterFirst, firstLowered, rest⟩ := Lowered.arguments lowered
      obtain ⟨code, produces, _⟩ := lowerExpr_yields first ready firstLowered
      obtain ⟨othersCode, othersProduces⟩ :=
        lowerArguments_produces others produces.toReady rest
      rw [List.length_cons, Nat.add_comm]
      exact ⟨_, produces.sequence othersProduces⟩

theorem lowerClauses_registers {nils : StatementNils}
    (clauses : List Clause)
    {held : List Emission} {nest later : Nest} {places : List Nat}
    (ready : nest.Ready held)
    (lowered : lowerClauses nils clauses nest = .ok (places, later)) :
    ∃ pairs, Registers held nest later pairs ∧
      places = sites (totalSize held) pairs ∧
      pairs.length = clauses.length := by
  cases clauses with
  | nil =>
      cases lowered
      exact ⟨[], ⟨ready.lowers, by simp⟩, rfl, rfl⟩
  | cons clause others =>
      obtain ⟨effect, parameter, body, position⟩ := clause
      obtain ⟨draft, afterBody, pushed, index, named, otherPlaces, started,
        bodyLowered, emitted, indexed, othersLowered, rfl⟩ :=
          Lowered.clauses lowered
      obtain ⟨function, template, produces, _, isFunction, arity⟩ :=
        ready.nothing.function started
        (fun entered => lowerBlock_yields body entered bodyLowered) emitted
      obtain ⟨namedProduces, grows, present⟩ := produces.nameIndex indexed
      obtain ⟨identity, pooled⟩ := isFunction
      have laterFunction : named.current.pools.IsFunction function template :=
        ⟨identity, grows.pools.constant pooled⟩
      have registered :
          (named.emit .setHandler [index, 255, 255] position.debugLine).Ready
          (held ++ pending [(function, index)]) :=
        (namedProduces.toLowers.emit rfl rfl position.debugLine).toReady
      obtain ⟨pairs, registers, othersPlaces, count⟩ :=
        lowerClauses_registers others registered othersLowered
      refine ⟨(function, index) :: pairs,
        registers.cons rfl namedProduces present laterFunction arity, ?_, ?_⟩
      · rw [othersPlaces, namedProduces.toReady.offset]
        simp [sites, pending, Emission.size, Code.emissions]
      · simp only [List.length_cons, count]

end

/-! ## Scripts -/

/-- Every program that compiles becomes a sound template that captures nothing
and has no parameters. -/
theorem Block.compileWith_sound {nils : StatementNils}
    {program : Block} {template : Template}
    (compiled : program.compileWith nils = .ok template) :
    template.Sound ∧ template.capturesInner = [] ∧ template.arity = 0 := by
  obtain ⟨draft, lowered, started, bodyLowered, rfl⟩ := Lowered.program compiled
  obtain ⟨sound, holds, arity, captures⟩ := Draft.start_spec started
  have ready : (⟨draft, [], 0⟩ : Nest).Ready [] := ⟨⟨sound, captures⟩, holds⟩
  obtain ⟨code, produces, _⟩ := lowerBlock_yields program ready bodyLowered
  have linked := produces.linked
  rw [List.forall₂_nil_left_iff.1 produces.enclosing] at linked
  have alike : lowered.current.Alike
      (lowered.emitReturn program.position.debugLine).current :=
    Draft.alike_emit _ _ _ _
  refine ⟨?_, ?_, ?_⟩
  · apply (alike.sound linked.sound).finish code
    · exact produces.typed
    · exact produces.height
    · exact produces.fits
    · exact produces.valid.mono alike.grows.pools
    · exact produces.holds.emit_plain rfl rfl _
  · simp only [Draft.finish, alike.captures, linked.2, List.map_nil]
  · exact (alike.arity.trans produces.grows.arity).trans arity

end EffectScript
