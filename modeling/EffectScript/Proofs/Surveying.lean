import EffectScript.Proofs.Description

/-!
# Lowering follows the sketch

Lowering and surveying read a program in the same order. At every moment the
code of the function being written holds one operation for each event of its
sketch so far, and the functions among its constants are those inside it so far.

A survey is kept up by every operation on drafts: writing code that marks no
event changes nothing, looking names up changes the meaning of no operation
written before, and a function that is finished is as its own survey tells.
-/

namespace EffectScript

namespace Nest

/-! ## Surveys of drafts -/

/-- The registries of the function being written and of those around it. -/
def chain (nest : Nest) : List Registry :=
  (nest.current :: nest.enclosing).map Draft.registry

/-- The function being written is as the survey tells, and its code is the
assembly of the given emissions. -/
structure Surveyed (survey : Survey) (nest : Nest) (held : List Emission) :
    Prop where
  scopes : Scoped nest.chain survey.scopes
  events : List.Forall₂
    (fun event emission => event.Appears nest.chain nest.current.names
      emission.opcode emission.byte)
    survey.events (held.filter (·.opcode.marksEvent))
  functions :
    List.Forall₂
    (fun sketch template => sketch.Matches Sketch.Describes nest.chain template)
    survey.functions (functionsAmong nest.current.constants)
  constants : ∀ value ∈ nest.current.constants, value.isPooled
  lines : Lined held nest.current.debug.lines.toList

variable {survey next : Survey} {held new : List Emission}
    {nest later last : Nest}

/-- Drafts may be looked up, declared in and given names and constants. -/
theorem Surveyed.grow
    (surveyed : Surveyed survey nest held)
    {scopes : List (List String)}
    (known : Scoped later.chain scopes)
    (precedes : ChainPrecedes nest.chain later.chain)
    (names : nest.current.names <+: later.current.names)
    (functions : functionsAmong later.current.constants =
      functionsAmong nest.current.constants)
    (constants : ∀ value ∈ later.current.constants, value.isPooled)
    (lines : later.current.debug.lines = nest.current.debug.lines) :
    Surveyed { survey with scopes := scopes } later held where
  scopes := known
  events := surveyed.events.imp fun _ _ appears => appears.mono precedes names
  functions := by
    rw [functions]
    exact surveyed.functions.imp fun _ _ inside =>
      inside.mono (fun describes chains => describes.mono chains) precedes
  constants := constants
  lines := by
    rw [lines]
    exact surveyed.lines

/-- The nests differ at most in the code of the function being written. -/
structure Writes (nest later : Nest) : Prop where
  alike : nest.current.Alike later.current
  enclosing : later.enclosing = nest.enclosing

theorem Writes.chain (writes : nest.Writes later) :
    later.chain = nest.chain := by
  simp only [Nest.chain, List.map_cons, Draft.registry, writes.enclosing,
    writes.alike.slots, writes.alike.captures]

/-- Code may be rewritten as long as its events stay. -/
theorem Surveyed.write
    (surveyed : Surveyed survey nest held)
    (writes : nest.Writes later)
    {emissions : List Emission}
    (events : emissions.filter (·.opcode.marksEvent) = held.filter
      (·.opcode.marksEvent))
    (lines : Lined emissions later.current.debug.lines.toList) :
    Surveyed survey later emissions where
  scopes := by
    rw [writes.chain]
    exact surveyed.scopes
  events := by
    rw [writes.chain, writes.alike.names, events]
    exact surveyed.events
  functions := by
    rw [writes.chain, writes.alike.constants]
    exact surveyed.functions
  constants := by
    rw [writes.alike.constants]
    exact surveyed.constants
  lines := lines

/-- The nest was reached by lowering a part of the program that leads from one
survey to the next. -/
structure Continues
    (survey next : Survey) (held new : List Emission) (nest later : Nest) :
    Prop extends Lowers held new nest later where
  surveyed : Surveyed next later (held ++ new)
  outside : next.scopes.tail = survey.scopes.tail
  registry : nest.current.registry.Precedes later.current.registry
  waits : List.Forall₂ Draft.Waits nest.enclosing later.enclosing

theorem Ready.continues
    (ready : nest.Ready held)
    (surveyed : Surveyed survey nest held) :
    Continues survey survey held [] nest nest where
  toLowers := ready.lowers
  surveyed := by simpa using surveyed
  outside := rfl
  registry := .refl _
  waits := forall₂_waits_refl _

theorem Continues.trans {further : Survey}
    {more : List Emission}
    (early : Continues survey next held new nest later)
    (late : Continues next further (held ++ new) more later last) :
    Continues survey further held (new ++ more) nest last where
  toLowers := early.toLowers.trans late.toLowers
  surveyed := by simpa using late.surveyed
  outside := late.outside.trans early.outside
  registry := early.registry.trans late.registry
  waits := forall₂_waits_trans early.waits late.waits

theorem Continues.precedes
    (continues : Continues survey next held new nest later) :
    ChainPrecedes nest.chain later.chain :=
  .cons continues.registry (chainPrecedes_of_waits continues.waits)

/-- Writing code that marks no other events. -/
theorem Continues.write
    (continues : Continues survey next held new nest later)
    (writes : later.Writes last)
    {more : List Emission}
    (holds : last.current.Holds (held ++ more))
    (events : more.filter (·.opcode.marksEvent) = new.filter
      (·.opcode.marksEvent))
    (lines : Lined (held ++ more) last.current.debug.lines.toList) :
    Continues survey next held more nest last where
  linked := by
    rw [writes.enclosing]
    exact continues.linked.replace (writes.alike.sound continues.linked.sound)
      writes.alike.captures
  holds := holds
  grows := continues.grows.trans writes.alike.grows
  enclosing := by
    rw [writes.enclosing]
    exact continues.enclosing
  surveyed := continues.surveyed.write writes
    (by rw [List.filter_append, List.filter_append, events]) lines
  outside := continues.outside
  registry := by
    have same : last.current.registry = later.current.registry := by
      simp only [Draft.registry, writes.alike.slots, writes.alike.captures]
    rw [same]
    exact continues.registry
  waits := by
    rw [writes.enclosing]
    exact continues.waits

/-- Filling in distances. -/
theorem Continues.patch
    (continues : Continues survey next held new nest later)
    (writes : later.Writes last)
    (lines : last.current.debug.lines = later.current.debug.lines)
    {more : List Emission}
    (lowers : Lowers held more nest last)
    (events : more.filter (·.opcode.marksEvent) = new.filter
      (·.opcode.marksEvent))
    (sizes : more.map Emission.size = new.map Emission.size) :
    Continues survey next held more nest last := by
  refine continues.write writes lowers.holds events ?_
  rw [lines]
  exact continues.surveyed.lines.congr
    (by rw [List.map_append, List.map_append, sizes])

/-- Appending an operation that marks no event. -/
theorem Continues.emit
    (continues : Continues survey next held new nest later)
    {opcode : Opcode} {operands : List UInt8}
    (complete : operands.length = opcode.operandCount)
    (quiet : opcode.marksEvent = false)
    (line : UInt32) :
    Continues survey next held (new ++ [⟨opcode, operands⟩]) nest
      (later.emit opcode operands line) := by
  have noAccess : opcode.promoted? = none := by
    cases opcode <;> first | rfl | cases quiet
  have writes : later.Writes (later.emit opcode operands line) :=
    ⟨Draft.alike_emit _ _ _ _, rfl⟩
  refine continues.write writes ?_ (by simp [quiet]) ?_
  · simpa [Nest.emit] using continues.holds.emit_plain complete noAccess line
  · simpa [Nest.emit, Draft.emit, Emission.size] using
      continues.surveyed.lines.emit ⟨opcode, operands⟩ line

/-- Appending an operation that marks an event. -/
theorem Continues.emitEvent
    (continues : Continues survey next held new nest later)
    (emission : Emission)
    {event : Event}
    (marks : emission.opcode.marksEvent)
    (appears : event.Appears later.chain later.current.names emission.opcode
      emission.byte)
    (complete : emission.Complete)
    (inRange : emission.opcode.promoted?.isSome →
      emission.byte.toNat < later.current.slots.length)
    (line : UInt32) :
    Continues survey (next.notes event) held (new ++ [emission]) nest
      (later.emit (emission.written later.current.heapSlots)
        emission.operands line) where
  toLowers := by
    refine continues.toLowers.write (Draft.alike_emit _ _ _ _) ?_
    simpa using continues.holds.emit emission complete inRange line
  surveyed := by
    have surveyed := continues.surveyed
    refine ⟨surveyed.scopes, ?_, surveyed.functions, surveyed.constants, ?_⟩
    · rw [← List.append_assoc, List.filter_append]
      refine List.rel_append surveyed.events ?_
      rw [List.filter_cons_of_pos (by simpa using marks)]
      exact .cons appears .nil
    · simpa [Nest.emit, Draft.emit, Emission.size]
        using surveyed.lines.emit emission line
  outside := continues.outside
  registry := continues.registry
  waits := continues.waits

/-- Drafts may be looked up, declared in and given names and scalars. -/
theorem Continues.keep
    (continues : Continues survey next held new nest later)
    {scopes : List (List String)}
    (linked : Linked (last.current :: last.enclosing))
    (keeps : later.current.Keeps last.current)
    (enclosing : List.Forall₂ Draft.Keeps later.enclosing last.enclosing)
    (known : Scoped last.chain scopes)
    (outside : scopes.tail = next.scopes.tail)
    (registry : later.current.registry.Precedes last.current.registry)
    (waits : List.Forall₂ Draft.Waits later.enclosing last.enclosing)
    (functions : functionsAmong last.current.constants =
      functionsAmong later.current.constants)
    (constants : ∀ value ∈ last.current.constants, value.isPooled)
    (lines : last.current.debug.lines = later.current.debug.lines) :
    Continues survey { next with scopes := scopes } held new nest last where
  toLowers := continues.toLowers.keep linked keeps enclosing
  surveyed := continues.surveyed.grow known
    (.cons registry (chainPrecedes_of_waits waits))
    keeps.pools.names functions constants lines
  outside := outside.trans continues.outside
  registry := continues.registry.trans registry
  waits := forall₂_waits_trans continues.waits waits

/-! ## Names and constants -/

theorem Continues.nameIndex
    (continues : Continues survey next held new nest later)
    {name : String} {line : UInt32} {index : UInt8}
    (named : later.nameIndex name line = .ok (index, last)) :
    Continues survey next held new nest last ∧
    last.current.names[index.toNat]? = some name := by
  obtain ⟨⟨_, draft⟩, indexed, result⟩ := Outcome.bind_eq_ok.1 named
  cases result
  obtain ⟨sound, keeps, _, captures⟩ := continues.linked.sound.nameIndex indexed
  have same : draft.registry = later.current.registry ∧
      draft.constants = later.current.constants ∧
      draft.debug.lines = later.current.debug.lines := by
    rcases Draft.nameIndex_cases indexed with ⟨_, rfl⟩ | ⟨_, _, _, rfl⟩ <;>
      exact ⟨rfl, rfl, rfl⟩
  obtain ⟨registry, constants, lines⟩ := same
  refine ⟨?_, ?_⟩
  · refine continues.keep (continues.linked.replace sound captures) keeps
      (List.forall₂_same.2 fun draft _ => .refl draft) ?_ rfl ?_
        (forall₂_waits_refl _) ?_ ?_ lines
    · simpa only [chain, List.map_cons, registry]
        using continues.surveyed.scopes
    · rw [show ({ later with current := draft } : Nest).current.registry =
        _ from registry]
      exact .refl _
    · simp only [constants]
    · simp only [constants]
      exact continues.surveyed.constants
  · exact continues.linked.sound.nameIndex_eq indexed

/-- Appending the push of a number or a text. -/
theorem Continues.emitConstant
    (continues : Continues survey next held new nest later)
    {value : Value} {line : UInt32}
    (scalar : value.isScalar)
    (poolable : value.isPooled)
    (emitted : later.emitConstant value line = .ok last) :
    ∃ index, Continues survey next held (new ++ [⟨.loadConst, [index]⟩])
      nest last := by
  obtain ⟨⟨index, draft⟩, pooled, result⟩ := Outcome.bind_eq_ok.1 emitted
  cases result
  obtain ⟨sound, keeps, captures, _⟩ :=
    continues.linked.sound.addConstant pooled (by rintro _ _ rfl; cases scalar)
  have noFunction : functionsAmong [value] = [] := by
    cases value <;> first | rfl | cases scalar
  have same : draft.registry = later.current.registry ∧
      draft.debug.lines = later.current.debug.lines ∧
      functionsAmong draft.constants = functionsAmong later.current.constants ∧
      ∀ held ∈ draft.constants, held.isPooled := by
    rcases Draft.addConstant_cases pooled with ⟨_, _, rfl⟩ | ⟨_, _, _, rfl⟩
    · exact ⟨rfl, rfl, rfl, continues.surveyed.constants⟩
    · refine ⟨rfl, rfl, ?_, ?_⟩
      · rw [functionsAmong, List.filterMap_append]
        change _ ++ functionsAmong [value] = _
        rw [noFunction, List.append_nil]
        rfl
      · intro other member
        rcases List.mem_append.1 member with old | isNew
        · exact continues.surveyed.constants other old
        · cases List.mem_singleton.1 isNew
          exact poolable
  obtain ⟨registry, lines, functions, constants⟩ := same
  have kept : Continues survey next held new nest
      { later with current := draft } := by
    refine continues.keep (continues.linked.replace sound captures) keeps
      (List.forall₂_same.2 fun draft _ => .refl draft) ?_ rfl ?_
      (forall₂_waits_refl _) functions constants lines
    · simpa only [chain, List.map_cons, registry]
        using continues.surveyed.scopes
    · rw [show ({ later with current := draft } : Nest).current.registry =
        _ from registry]
      exact .refl _
  exact ⟨index, kept.emit rfl rfl line⟩

/-- Looking up a name. -/
theorem Continues.resolve
    (continues : Continues survey next held new nest later)
    {name : String} {line : UInt32} {found : Option UInt8}
    (resolved : later.resolve name line = .ok (found, last)) :
    Continues survey next held new nest last ∧
    found = last.current.registry.slot? name ∧
      (found = none → next.level? name = none) ∧
      ∀ slot, found = some slot → slot.toNat < last.current.slots.length := by
  obtain ⟨⟨_, current, enclosing⟩, searched, result⟩ :=
    Outcome.bind_eq_ok.1 resolved
  cases result
  obtain ⟨linked, keeps, enclosingKeep, below⟩ :=
    resolveFrom_spec continues.linked searched
  obtain ⟨known, waits, foundEq, unknown⟩ :=
    resolveFrom_scoped continues.surveyed.scopes searched
  cases waits with
  | cons currentWaits enclosingWaits =>
      refine ⟨?_, foundEq, unknown, below⟩
      refine continues.keep linked keeps enclosingKeep known rfl
        currentWaits.registry enclosingWaits ?_ ?_ currentWaits.lines
      · simp only [currentWaits.constants]
      · simp only [currentWaits.constants]
        exact continues.surveyed.constants

/-- The slot that stands for a name leads to where the name was declared. -/
theorem Surveyed.stands
    (surveyed : Surveyed survey nest held)
    {name : String} {slot : UInt8}
    (found : nest.current.registry.slot? name = some slot) :
    (∃ level, survey.level? name = some level ∧
      StandsFor name nest.chain level slot) ∨
      nest.chain.length = 1 ∧ name = scriptName := by
  have known := surveyed.scopes
  cases scopes : survey.scopes with
  | nil =>
      right
      rw [scopes] at known
      unfold chain at known ⊢
      cases enclosing : nest.enclosing with
      | nil =>
          rw [enclosing] at known
          exact ⟨rfl, known.2 name slot found⟩
      | cons outer beyond =>
          rw [enclosing] at known
          exact known.elim
  | cons scope others =>
      left
      exact known.stands found (by rw [scopes]; exact List.cons_ne_nil _ _)

/-- Reading a variable. -/
theorem Continues.loadVariable
    (continues : Continues survey next held new nest later)
    {name : String} {line : UInt32}
    (loaded : later.loadVariable name line = .ok last) :
    (∃ emission, Continues survey (next.reads name) held (new ++ [emission])
        nest last) ∧
      last.current.removable = none := by
  unfold Nest.loadVariable at loaded
  split at loaded
  · cases loaded
  · obtain ⟨⟨found, resolved⟩, resolves, emitted⟩ := Outcome.bind_eq_ok.1 loaded
    obtain ⟨looked, foundEq, unknown, below⟩ := continues.resolve resolves
    cases found with
    | none =>
        obtain ⟨⟨index, named⟩, indexed, result⟩ := Outcome.bind_eq_ok.1 emitted
        cases result
        obtain ⟨kept, present⟩ := looked.nameIndex indexed
        have appears : (Event.reads name (next.level? name)).Appears named.chain
            named.current.names .loadGlobal index := by
          rw [unknown rfl]
          exact .inl ⟨rfl, present⟩
        exact ⟨⟨_, kept.emitEvent ⟨.loadGlobal, [index]⟩ rfl appears rfl
          (by rintro ⟨⟩) line⟩, rfl⟩
    | some slot =>
        cases emitted
        have appears : (Event.reads name (next.level? name)).Appears
            resolved.chain resolved.current.names .loadLocal slot := by
          rcases looked.surveyed.stands foundEq.symm
            with ⟨level, levelEq, stands⟩ | ⟨outermost, isScript⟩
          · rw [levelEq]
            exact .inl ⟨.inl rfl, stands⟩
          · exact .inr ⟨outermost, congrArg some isScript, rfl⟩
        have access := looked.emitEvent ⟨.loadLocal, [slot]⟩ rfl appears rfl
          (fun _ => below slot rfl) line
        rw [Draft.written_loadLocal] at access
        exact ⟨⟨_, access⟩, rfl⟩

end Nest

/-- The write to a target. -/
def StoreTarget.emission : StoreTarget → Emission
  | .slot number => ⟨.storeLocal, [number]⟩
  | .global index => ⟨.storeGlobal, [index]⟩

namespace Nest

variable {survey next : Survey} {held new : List Emission}
    {nest later last : Nest}

/-- The target is where the event writes. -/
def Aims (nest : Nest) (event : Event) (target : StoreTarget) : Prop :=
  event.Appears nest.chain nest.current.names target.emission.opcode
      target.emission.byte ∧
    target.Valid nest.current.pools

/-- A name that is new to all functions is declared in the innermost one. -/
theorem Continues.declare
    (continues : Continues survey next held new nest later)
    {name : String} {line : UInt32} {slot : UInt8} {draft : Draft}
    (inside : later.enclosing ≠ [])
    (fresh : later.current.registry.slot? name = none)
    (undeclared : next.level? name = none)
    (declaring : later.current.declare name line = .ok (slot, draft)) :
    Continues survey (next.declare name) held new nest
        { later with current := draft } ∧
      Aims { later with current := draft }
        (.writes name ((next.declare name).level? name)) (.slot slot) := by
  have registry := Draft.registry_declare declaring
  obtain ⟨sound, keeps, slotEq, draftEq⟩ :=
    continues.linked.sound.declare declaring
  subst draftEq
  have known := continues.surveyed.scopes
  obtain ⟨outer, beyond, enclosingEq⟩ := List.exists_cons_of_ne_nil inside
  rw [chain, enclosingEq] at known
  obtain ⟨scope, others, scopes⟩ := known.scopes_eq_cons
  rw [scopes] at known
  have declared : next.declare name =
      { next with scopes := (name :: scope) :: others } := by
    unfold Survey.declare
    rw [scopes]
    simp [undeclared]
  have own : ({ next with scopes := (name :: scope) :: others } : Survey).level?
      name = some 0 := by
    rw [Survey.level?_eq, levelOf_cons, if_pos List.mem_cons_self]
  rw [declared, own]
  refine ⟨?_, .inl ⟨.inl rfl, ?_, ?_⟩, ?_⟩
  · refine continues.keep (continues.linked.replace sound rfl) keeps
      (List.forall₂_same.2 fun draft _ => .refl draft) ?_ ?_
      (registry ▸ Registry.precedes_declare fresh) (forall₂_waits_refl _) rfl
      continues.surveyed.constants rfl
    · rw [chain]
      simp only [enclosingEq, List.map_cons, registry]
      exact known.declare fresh slotEq
    · rw [scopes]
      rfl
  · simp [registry, StoreTarget.emission, Emission.byte]
  · intro capture member same
    have below := known.1.ordered.captured capture member
    rw [show capture.2 = slot from same, slotEq] at below
    exact Nat.lt_irrefl _ below
  · simp only [StoreTarget.Valid, Draft.pools, slotEq,
      Draft.length_slots_addSlot]
    omega

/-- Finding where an assignment to a name writes declares the name. -/
theorem Continues.storeTarget
    (continues : Continues survey next held new nest later)
    {name : String} {line : UInt32} {target : StoreTarget}
    (targeted : later.storeTarget name line = .ok (target, last)) :
    Continues survey (next.declare name) held new nest last ∧
      last.Aims (.writes name ((next.declare name).level? name)) target := by
  obtain ⟨⟨found, resolved⟩, resolves, rest⟩ := Outcome.bind_eq_ok.1 targeted
  obtain ⟨looked, foundEq, unknown, below⟩ := continues.resolve resolves
  cases found with
  | some slot =>
      cases rest
      have declared : next.declare name = next := by
        unfold Survey.declare
        split
        · rfl
        next own others scopes =>
          rcases looked.surveyed.stands foundEq.symm
            with ⟨level, levelEq, _⟩ | ⟨outermost, _⟩
          · rw [levelEq]
            rfl
          · have known := looked.surveyed.scopes
            rw [scopes] at known
            obtain ⟨only, chainEq⟩ := List.length_eq_one_iff.1 outermost
            rw [chainEq] at known
            exact known.elim
      rw [declared]
      refine ⟨looked, ?_, below slot rfl⟩
      rcases looked.surveyed.stands foundEq.symm with ⟨level, levelEq, stands⟩ |
        ⟨outermost, isScript⟩
      · rw [levelEq]
        exact .inl ⟨.inl rfl, stands⟩
      · exact .inr ⟨outermost, congrArg some isScript, rfl⟩
  | none =>
      have undeclared := unknown rfl
      have known := looked.surveyed.scopes
      simp only at rest
      split at rest
      next outermost =>
        obtain ⟨⟨index, named⟩, indexed, result⟩ := Outcome.bind_eq_ok.1 rest
        cases result
        obtain ⟨kept, present⟩ := looked.nameIndex indexed
        have inScript : next.scopes = [] := by
          rw [chain, List.isEmpty_iff.1 outermost] at known
          exact known.scopes_eq_nil
        have declared : next.declare name = next := by
          unfold Survey.declare
          rw [inScript]
        rw [declared, undeclared]
        exact ⟨kept, .inl ⟨rfl, present⟩,
          (List.getElem?_eq_some_iff.1 present).1⟩
      next inside =>
        obtain ⟨⟨slot, draft⟩, declaring, result⟩ := Outcome.bind_eq_ok.1 rest
        cases result
        exact looked.declare (by simpa using inside) foundEq.symm
          undeclared declaring

/-- A target stays where it is while lowering goes on. -/
theorem Aims.after {event : Event} {target : StoreTarget}
    (aims : nest.Aims event target)
    (continues : Continues survey next held new nest later) :
    later.Aims event target :=
  ⟨aims.1.mono continues.precedes continues.grows.pools.names,
    aims.2.mono continues.grows.pools⟩

/-- Writing a variable. -/
theorem Continues.emitStore
    (continues : Continues survey next held new nest later)
    {event : Event} {target : StoreTarget}
    (aims : later.Aims event target)
    (line : UInt32) :
    Continues survey (next.notes event) held (new ++ [target.emission]) nest
      (later.emitStore target line) := by
  cases target with
  | slot slot =>
      have access := continues.emitEvent ⟨.storeLocal, [slot]⟩ rfl aims.1 rfl
        (fun _ => aims.2) line
      rw [Draft.written_storeLocal] at access
      exact access
  | global index =>
      exact continues.emitEvent ⟨.storeGlobal, [index]⟩ rfl aims.1 rfl
        (by rintro ⟨⟩) line

/-! ## Results of statements -/

/-- What lowering a part of the program comes to. If the draft remembers a
removable instruction, the code ends in the push of nil. -/
def Surveys (survey next : Survey) (held : List Emission) (nest later : Nest) :
    Prop :=
  ∃ new, Continues survey next held new nest later ∧
    (later.current.removable ≠ none → ∃ shorter,
      new = shorter ++ [⟨.pushNil, []⟩])

theorem Continues.surveys
    (continues : Continues survey next held new nest later)
    (fixed : later.current.removable = none) :
    Surveys survey next held nest later :=
  ⟨new, continues, fun remembered => (remembered fixed).elim⟩

/-- The push of a statement's result may be removed again. -/
theorem Continues.statementNil
    (continues : Continues survey next held new nest later)
    (line : UInt32) :
    Surveys survey next held nest (later.emitStatementNil line) := by
  have emitted := continues.emit
    (show [].length = Opcode.pushNil.operandCount from rfl) rfl line
  have writes : (later.emit .pushNil [] line).Writes
      (later.emitStatementNil line) :=
    ⟨⟨rfl, rfl, rfl, rfl, rfl, rfl, rfl, rfl⟩, rfl⟩
  refine ⟨_, emitted.write writes ?_ rfl emitted.surveyed.lines,
    fun _ => ⟨new, rfl⟩⟩
  exact ⟨emitted.holds.bytes, emitted.holds.complete, emitted.holds.inRange⟩

/-- Throwing the result of an expression away. -/
theorem Surveys.discard
    (surveys : Surveys survey next held nest later)
    (nils : StatementNils) (line : UInt32) :
    ∃ new, Continues survey next held new nest (later.discard nils line) := by
  obtain ⟨new, continues, droppable⟩ := surveys
  have popped : ∃ new, Continues survey next held new nest
      (later.emit .pop [] line) :=
    ⟨_, continues.emit rfl rfl line⟩
  unfold Nest.discard Draft.discard
  split
  next offset remembered =>
    split
    · obtain ⟨shorter, rfl⟩ :=
        droppable (by rw [remembered]; exact Option.some_ne_none _)
      have holds := continues.holds
      have lines := continues.surveyed.lines
      rw [← List.append_assoc] at holds lines
      have writes : later.Writes
          { later with
            current := { later.current with
              code := later.current.code.pop
              debug := { later.current.debug with lines :=
                later.current.debug.lines.pop }
              removable := none } } :=
                ⟨⟨rfl, rfl, rfl, rfl, rfl, rfl, rfl, rfl⟩, rfl⟩
      refine ⟨shorter, continues.write writes ?_ ?_ ?_⟩
      · exact holds.pop rfl rfl rfl rfl
      · simp [Opcode.marksEvent]
      · simp only [Array.toList_pop]
        exact lines.pop rfl
    · exact popped
  next => exact popped

/-! ## Jumps -/

theorem writes_patchTo {draft : Draft} {origin : Nat}
    {line : UInt32}
    (patched : nest.current.patchTo origin line = .ok draft) :
    nest.Writes { nest with current := draft } ∧
    draft.debug.lines = nest.current.debug.lines := by
  refine ⟨⟨Draft.alike_patchTo patched, rfl⟩, ?_⟩
  simp only [Draft.patchTo] at patched
  split at patched
  · cases patched
    rfl
  · cases patched

theorem writes_patchJump {site : Nat} {line : UInt32}
    (patched : nest.patchJump site line = .ok later) :
    nest.Writes later ∧
    later.current.debug.lines = nest.current.debug.lines := by
  obtain ⟨draft, patch, result⟩ := Outcome.bind_eq_ok.1 patched
  cases result
  exact writes_patchTo patch

theorem Writes.trans (early : nest.Writes later) (late : later.Writes last) :
    nest.Writes last :=
  ⟨early.alike.trans late.alike, late.enclosing.trans early.enclosing⟩

theorem writes_patchHandlers {line : UInt32}
    {sites : List Nat}
    (patched : nest.patchHandlers line sites = .ok later) :
    nest.Writes later ∧
    later.current.debug.lines = nest.current.debug.lines := by
  induction sites generalizing nest with
  | nil =>
      cases patched
      exact ⟨⟨⟨rfl, rfl, rfl, rfl, rfl, rfl, rfl, rfl⟩, rfl⟩, rfl⟩
  | cons site sites inner =>
      obtain ⟨draft, first, rest⟩ := Outcome.bind_eq_ok.1 patched
      obtain ⟨writes, lines⟩ := writes_patchTo first
      obtain ⟨laterWrites, laterLines⟩ := inner rest
      exact ⟨writes.trans laterWrites, laterLines.trans lines⟩

theorem Surveys.branch {chosen further : Survey}
    {afterCondition afterConsequence elsePatched afterAlternative : Nest}
    {line : UInt32}
    (condition : Surveys survey next held nest afterCondition)
    (consequence : ∀ {inner},
      (afterCondition.emit .jumpIfFalse [255, 255] line).Ready inner →
      Surveyed next (afterCondition.emit .jumpIfFalse [255, 255] line) inner →
      Surveys next chosen inner
        (afterCondition.emit .jumpIfFalse [255, 255] line) afterConsequence)
    (elseLands : (afterConsequence.emit .jump [255, 255] line).patchJump
      afterCondition.offset line = .ok elsePatched)
    (alternative : ∀ {inner}, elsePatched.Ready inner →
      Surveyed chosen elsePatched inner →
      Surveys chosen further inner elsePatched afterAlternative)
    (endLands : afterAlternative.patchJump afterConsequence.offset
      line = .ok last) :
    Surveys survey further held nest last := by
  obtain ⟨_, decides, _⟩ := condition
  have jumped := decides.emit
    (show [255, 255].length = Opcode.jumpIfFalse.operandCount from rfl) rfl line
  obtain ⟨_, chooses, _⟩ := consequence jumped.toReady jumped.surveyed
  have through := (jumped.trans chooses).emit
    (show [255, 255].length = Opcode.jump.operandCount from rfl) rfl line
  obtain ⟨lowersElse, _, _⟩ :=
    decides.toLowers.throughConsequence chooses.toLowers elseLands
  obtain ⟨elseWrites, elseLines⟩ := writes_patchJump elseLands
  have elseContinues := through.patch elseWrites elseLines lowersElse
    (by simp [Opcode.marksEvent])
      (by simp [Emission.size, Instruction.shortBytes])
  obtain ⟨_, otherwise, _⟩ :=
    alternative elseContinues.toReady elseContinues.surveyed
  obtain ⟨lowersEnd, _, _, fixed⟩ :=
    lowersElse.throughAlternative otherwise.toLowers
      chooses.toReady.offset endLands
  obtain ⟨endWrites, endLines⟩ := writes_patchJump endLands
  have finished := (elseContinues.trans otherwise).patch endWrites
    endLines lowersEnd
    (by simp [Opcode.marksEvent])
      (by simp [Emission.size, Instruction.shortBytes])
  exact finished.surveys fixed

/-- A repetition marks its end. -/
theorem Surveys.loop {further : Survey}
    {afterCondition afterBody : Nest} {looped : Draft} {nils : StatementNils}
    {line : UInt32}
    (ready : nest.Ready held)
    (condition : Surveys survey next held nest afterCondition)
    (body : ∀ {inner}, (afterCondition.emit .jumpIfFalse [255, 255] line).Ready
      inner → Surveyed next (afterCondition.emit .jumpIfFalse [255, 255] line)
        inner → Surveys next further inner
          (afterCondition.emit .jumpIfFalse [255, 255] line) afterBody)
    (returns : (afterBody.discard nils line).current.emitLoop nest.offset
      line = .ok looped)
    (exitLands :
      ({ afterBody.discard nils line with current := looped } : Nest).patchJump
        afterCondition.offset line = .ok last) :
    ∃ new, Continues survey (further.notes .repeats) held new nest last := by
  obtain ⟨conditionNew, decides, _⟩ := condition
  have jumped := decides.emit
    (show [255, 255].length = Opcode.jumpIfFalse.operandCount from rfl) rfl line
  obtain ⟨bodyNew, repeats⟩ :=
    (body jumped.toReady jumped.surveyed).discard nils line
  obtain ⟨lowers, _, _⟩ :=
    decides.toLowers.throughLoop ready repeats.toLowers returns exitLands
  obtain ⟨exitWrites, exitLines⟩ := writes_patchJump exitLands
  have distance : (afterBody.discard nils line).current.code.size + 3 -
      nest.offset =
      totalSize conditionNew + 3 + totalSize bodyNew + 3 := by
    have bodyOffset : (afterBody.discard nils line).current.code.size = _ :=
      repeats.toReady.offset
    rw [bodyOffset, ready.offset]
    simp [Emission.size]
    omega
  simp only [Draft.emitLoop, distance] at returns
  split at returns
  · cases returns
    have through := (jumped.trans repeats).emitEvent
      ⟨.loop, Instruction.shortBytes
        (totalSize conditionNew + 3 + totalSize bodyNew + 3)⟩ rfl
      (show Event.repeats.Appears _ _ .loop _ from .inl rfl) rfl
        (by rintro ⟨⟩) line
    refine ⟨_, through.patch exitWrites exitLines lowers ?_ ?_⟩
    · simp [Opcode.marksEvent]
    · simp [Emission.size, Instruction.shortBytes]
  · cases returns

end Nest

/-! ## Functions -/

namespace Draft

variable {draft later : Draft}

/-- Names are declared in order. -/
theorem declareAll_registry {line : UInt32}
    {names : List String}
    (declared : draft.declareAll line names = .ok later)
    (numbered : Numbered draft.slots) :
    ∃ slotNames, later =
        { draft with debug := { draft.debug with slotNames := slotNames } } ∧
      Numbered slotNames.reverse ∧
      slotNames.map (·.1) = draft.debug.slotNames.map (·.1) ++ names := by
  induction names generalizing draft with
  | nil =>
      cases declared
      exact ⟨later.debug.slotNames, rfl, numbered, by simp⟩
  | cons first others inner =>
      obtain ⟨⟨slot, next⟩, firstDeclared, rest⟩ :=
        Outcome.bind_eq_ok.1 declared
      obtain ⟨slotEq, rfl⟩ := declare_eq firstDeclared
      obtain ⟨slotNames, laterEq, slotsNumbered, names⟩ :=
        inner rest (draft.slots_addSlot first slot ▸ ⟨slotEq, numbered⟩)
      exact ⟨slotNames, laterEq, slotsNumbered,
        by simp [names, addSlot, DebugTables.addSlotName]⟩

/-- A draft begins with its own name and its parameters. -/
theorem start_registry {name : String}
    {parameters : List String} {line : UInt32}
    (started : Draft.start name parameters line = .ok draft) :
    ∃ slotNames, draft =
        { name := name, arity := parameters.length, debug :=
          { slotNames := slotNames } } ∧
      Numbered slotNames.reverse ∧ slotNames.map (·.1) = name :: parameters :=
  declareAll_registry started trivial

/-- A function always becomes a new constant. -/
theorem addConstant_function {identity : Nat}
    {line : UInt32} {template : Template} {index : UInt8}
    (pooled : draft.addConstant (.function identity template) line = .ok
      (index, later)) :
    later = { draft with constants :=
      draft.constants ++ [.function identity template] } := by
  rcases addConstant_cases pooled with ⟨⟨scalar, _⟩, _⟩ | ⟨_, _, _, grown⟩
  · cases scalar
  · exact grown

end Draft

namespace Nest

variable {survey next inner : Survey} {held new : List Emission}
    {nest later last : Nest}

/-- A function begins with its own name and its parameters declared. -/
theorem Surveyed.enter
    (surveyed : Surveyed survey nest held)
    {name : String} {parameters : List String} {line : UInt32} {draft : Draft}
    (started : Draft.start name parameters line = .ok draft) :
    Surveyed (survey.inside name parameters) (nest.enter draft line)
      [⟨.comment, []⟩] := by
  obtain ⟨slotNames, rfl, numbered, names⟩ := Draft.start_registry started
  have mem_names {other : String} :
      other ∈ name :: parameters ↔
      ∃ slot, (other, slot) ∈ slotNames.reverse := by
    rw [← names]
    simp
  have uncaptured {claim : UInt8 × UInt8 → Prop} :
      ∀ capture ∈ [], claim capture := by simp
  refine ⟨⟨⟨⟨numbered, uncaptured⟩, ?_, ?_⟩, surveyed.scopes⟩, .nil, .nil,
    by simp [Nest.enter, Draft.addComment, Draft.emit], line, [], rfl, rfl⟩
  · intro other member
    obtain ⟨slot, held⟩ := mem_names.1 member
    cases found : slotNames.reverse.lookup other with
    | none =>
        have absent := List.lookup_eq_none_iff.1 found _ held
        simp at absent
    | some slot => exact ⟨slot, found, uncaptured⟩
  · intro other slot found undeclared
    exact (undeclared (mem_names.2 ⟨slot, Registry.mem_slots found⟩)).elim

/-- A function whose draft is finished is as its survey tells. -/
theorem Continues.finish
    (continues : Continues survey next held new nest later)
    {name : String} {parameters : List String}
    (names : nest.current.debug.slotNames.map (·.1) = name :: parameters) :
    Sketch.Matches Sketch.Describes (later.enclosing.map Draft.registry)
      ⟨name, parameters, next.events, next.functions⟩ later.current.finish := by
  have surveyed := continues.surveyed
  have holds := continues.holds
  have sound := continues.linked.sound
  have walkEq : Instruction.walk later.current.code =
      ⟨placed later.current.heapSlots 0 (held ++ new), none⟩ :=
    walk_assemble holds.bytes holds.complete
  have chainEq : later.current.finish.registry ::
      later.enclosing.map Draft.registry = later.chain := by
    rw [Draft.registry_finish]
    rfl
  have numbered := surveyed.scopes.ordered.numbered
  have lines : later.current.debug.lines.size = later.current.code.size := by
    rw [← Array.length_toList, surveyed.lines.length, holds.size]
  obtain ⟨count, inside⟩ := List.forall₂_iff_zip.1 surveyed.functions
  refine .intro ⟨?_, ?_, ?_, surveyed.constants, sound.constantsRoom,
    sound.namesRoom, sound.slotsRoom, lines, ?_⟩ count ?_
  · rw [chainEq, Template.eventInstructions]
    simp only [Draft.finish, walkEq]
    exact forall₂_placed _ 0 surveyed.events
  · rw [show later.current.finish.debug.slotNames =
      later.current.slots.reverse from
      later.current.reverse_slots.symm]
    exact numbered.range_eq
  · obtain ⟨added, slotsEq⟩ := continues.registry.slots
    have grown : later.current.slots = added ++ nest.current.slots :=
      slotsEq.symm
    have named : later.current.debug.slotNames = nest.current.debug.slotNames ++
        added.reverse := by
      rw [← Draft.reverse_slots, grown, List.reverse_append,
        Draft.reverse_slots]
    simp only [Draft.finish, named, List.map_append, names]
    exact List.prefix_append _ _
  · intro instruction member
    simp only [Draft.finish, walkEq] at member
    obtain ⟨before, emission, after, parts, rfl⟩ := exists_of_mem_placed member
    have linedAll := surveyed.lines
    rw [parts] at linedAll
    obtain ⟨line, uniform⟩ := linedAll.uniform
    have complete := holds.complete emission (by simp [parts])
    refine ⟨line, fun index less => ?_⟩
    rw [show (emission.placedAt later.current.heapSlots
        (0 + totalSize before)).opcode.size =
      emission.size from complete.size_written _] at less
    have here := uniform index less
    rw [Array.getElem?_toList] at here
    simpa [Draft.finish, Emission.placedAt] using here
  · intro function template paired
    rw [chainEq]
    exact inside paired

/-- A finished function becomes a constant, and a closure of it is pushed. -/
theorem Surveyed.emitClosure
    (surveyed : Surveyed survey nest held)
    {sketch : Sketch} {template : Template}
    (described : sketch.Matches Sketch.Describes nest.chain template)
    {line : UInt32}
    (emitted : nest.emitClosure template line = .ok later)
    (index : UInt8) :
    Surveyed { survey with functions := survey.functions ++ [sketch] } later
      (held ++ [⟨.makeClosure, [index]⟩]) ∧
      later.current.registry = nest.current.registry ∧
      later.enclosing = nest.enclosing := by
  obtain ⟨⟨place, pool⟩, pooled, result⟩ := Outcome.bind_eq_ok.1 emitted
  cases result
  cases Draft.addConstant_function pooled
  refine ⟨⟨surveyed.scopes, ?_, ?_, ?_, ?_⟩, rfl, rfl⟩
  · rw [List.filter_append]
    exact (List.append_nil _).symm ▸ surveyed.events
  · simp only [Nest.emit, Draft.emit, functionsAmong, List.filterMap_append]
    exact List.rel_append surveyed.functions (.cons described .nil)
  · intro value member
    rcases List.mem_append.1 member with old | isNew
    · exact surveyed.constants value old
    · cases List.mem_singleton.1 isNew
      rfl
  · simpa [Nest.emit, Draft.emit, Emission.size, List.replicate] using
      surveyed.lines.emit ⟨.makeClosure, [index]⟩ line

/-- The drafts around a function are as they were surveyed when the function is
finished. -/
theorem Continues.leave {draft : Draft} {name : String}
    {parameters : List String} {line : UInt32} {entered body : List Emission}
    (surveyed : Surveyed survey nest held)
    (continues : Continues (survey.inside name parameters) inner entered body
      (nest.enter draft line) later) :
    Surveyed survey (later.leave nest line).2 held ∧
      nest.current.Waits (later.leave nest line).2.current ∧
      List.Forall₂ Draft.Waits nest.enclosing
        (later.leave nest line).2.enclosing ∧
      (later.leave nest line).2.chain = later.enclosing.map Draft.registry := by
  have waits := continues.waits
  have known := continues.surveyed.scopes
  have outside := continues.outside
  cases enclosingEq : later.enclosing with
  | nil =>
      rw [enclosingEq] at waits
      cases waits
  | cons outerLater beyond =>
      rw [enclosingEq] at waits
      rw [chain, enclosingEq] at known
      obtain ⟨scope, others, scopes⟩ := known.scopes_eq_cons
      rw [scopes] at known outside
      cases (show others = survey.scopes from outside)
      have closedEq := leave_eq enclosingEq nest line
      have chainEq : (later.leave nest line).2.chain =
          (outerLater :: beyond).map Draft.registry := by
        rw [chain, closedEq.1, closedEq.2]
      rw [chainEq, closedEq.1, closedEq.2]
      cases waits with
      | cons outerWaits beyondWaits =>
          refine ⟨surveyed.grow ?_ ?_ ?_ ?_ ?_ ?_, outerWaits, beyondWaits, rfl⟩
          · rw [chainEq]
            exact known.2
          · rw [chainEq]
            exact chainPrecedes_of_waits (.cons outerWaits beyondWaits)
          · have same : (later.leave nest line).2.current.names =
                nest.current.names := by
              rw [closedEq.1, outerWaits.names]
            exact same ▸ List.prefix_refl _
          · rw [closedEq.1, outerWaits.constants]
          · rw [closedEq.1, outerWaits.constants]
            exact surveyed.constants
          · rw [closedEq.1, outerWaits.lines]

/-- A function whose body is lowered inside another one becomes one of its
constants. -/
theorem Surveyed.function {body pushed : Nest}
    (surveyed : Surveyed survey nest held)
    {name : String} {parameters : List String} {line : UInt32} {draft : Draft}
    {index : UInt8}
    (started : Draft.start name parameters line = .ok draft)
    (lowered : Surveyed (survey.inside name parameters) (nest.enter draft line)
      [⟨.comment, []⟩] → Surveys (survey.inside name parameters) inner
        [⟨.comment, []⟩] (nest.enter draft line) body)
    (emitted : (body.leave nest line).2.emitClosure (body.leave nest line).1
      line = .ok pushed)
    (lowers : Lowers held [⟨.makeClosure, [index]⟩] nest pushed) :
    Continues survey (survey.encloses name parameters inner) held
      [⟨.makeClosure, [index]⟩] nest pushed := by
  obtain ⟨_, continues, _⟩ := lowered (surveyed.enter started)
  obtain ⟨slots, rfl, _, names⟩ := Draft.start_registry started
  have returned := continues.emit
    (show [].length = Opcode.return.operandCount from rfl) rfl
      (body.current.lastLine line)
  obtain ⟨closed, waits, enclosingWaits, chainEq⟩ :=
    Continues.leave surveyed continues
  have described : Sketch.Matches Sketch.Describes
      (body.leave nest line).2.chain
      ⟨name, parameters, inner.events, inner.functions⟩
        (body.leave nest line).1 := by
    rw [chainEq]
    exact returned.finish names
  obtain ⟨pushedSurveyed, registry, enclosing⟩ :=
    closed.emitClosure described emitted index
  exact ⟨lowers, pushedSurveyed, rfl, registry ▸ waits.registry,
    enclosing ▸ enclosingWaits⟩

/-! ## Literals, labels and statements -/

theorem Continues.literal
    (continues : Continues survey next held new nest later)
    {value : Literal} {line : UInt32}
    (pushed : later.literal value line = .ok last) :
    Surveys survey next held nest last := by
  have constant {scalar : Value} (isScalar : scalar.isScalar)
      (poolable : scalar.isPooled)
      (emitted : later.emitConstant scalar line = .ok last) :
        Surveys survey next held nest last := by
    obtain ⟨index, pooled⟩ := continues.emitConstant isScalar poolable emitted
    obtain ⟨⟨_, draft⟩, _, result⟩ := Outcome.bind_eq_ok.1 emitted
    cases result
    exact pooled.surveys rfl
  have operation {opcode : Opcode} (complete : [].length = opcode.operandCount)
      (quiet : opcode.marksEvent = false) :
      Surveys survey next held nest (later.emit opcode [] line) :=
    (continues.emit complete quiet line).surveys rfl
  cases value with
  | nil =>
      cases pushed
      exact operation rfl rfl
  | bool truth =>
      cases truth <;> cases pushed
      · exact operation rfl rfl
      · exact operation rfl rfl
  | int number => exact constant rfl rfl pushed
  | str text => exact constant rfl rfl pushed
  | float number => cases pushed

theorem Surveyed.label (surveyed : Surveyed survey nest held) :
    Surveyed survey { nest with current := nest.current.label } held := by
  have writes : nest.Writes { nest with current := nest.current.label } :=
    ⟨⟨rfl, rfl, rfl, rfl, rfl, rfl, rfl, rfl⟩, rfl⟩
  exact surveyed.write writes rfl surveyed.lines

theorem Continues.fromLabel
    (continues : Continues survey next held new
      { nest with current := nest.current.label } later) :
    Continues survey next held new nest later :=
  ⟨continues.toLowers.fromLabel, continues.surveyed, continues.outside,
    continues.registry, continues.waits⟩

/-- What comes after a statement decides what may be removed. -/
theorem Continues.then {further : Survey}
    (early : Continues survey next held new nest later)
    (late : Surveys next further (held ++ new) later last) :
    Surveys survey further held nest last := by
  obtain ⟨more, continues, droppable⟩ := late
  refine ⟨new ++ more, early.trans continues, fun remembered => ?_⟩
  obtain ⟨shorter, rfl⟩ := droppable remembered
  exact ⟨new ++ shorter, by simp⟩

/-! ## Clauses -/

/-- Registrations mark no events, whatever their distances are. -/
theorem filter_registrations (rest : Nat) (clauses : List (UInt8 × UInt8)) :
    (Code.registrations rest clauses).filter (·.opcode.marksEvent) =
      (pending clauses).filter (·.opcode.marksEvent) := by
  induction clauses with
  | nil => rfl
  | cons clause others inner => exact inner

theorem sizes_registrations (rest : Nat) (clauses : List (UInt8 × UInt8)) :
    (Code.registrations rest clauses).map Emission.size =
      (pending clauses).map Emission.size := by
  induction clauses with
  | nil => rfl
  | cons clause others inner =>
      simp only [Code.registrations, pending, List.map_cons, inner]
      rfl

/-- Registering the clauses of an attempt, and its end. -/
theorem Continues.attempt {clauses : List (UInt8 × UInt8)}
    {further : Survey} {registered afterBody : Nest} {line : UInt32}
    (few : clauses.length ≤ 255)
    (registers : Continues survey next held (pending clauses) nest registered)
    (body : registered.Ready (held ++ pending clauses) →
      Surveyed next registered (held ++ pending clauses) →
      Surveys next further (held ++ pending clauses) registered afterBody)
    (lands :
      (afterBody.emit .popHandlers [UInt8.ofNat clauses.length]
        line).patchHandlers line (sites (totalSize held) clauses) = .ok last) :
    Surveys survey (further.notes (.attempts clauses.length)) held
      nest last := by
  obtain ⟨bodyNew, bodyContinues, _⟩ :=
    body registers.toReady registers.surveyed
  have countEq : (UInt8.ofNat clauses.length).toNat = clauses.length :=
    UInt8.toNat_ofNat_of_lt' (Nat.lt_succ_of_le few)
  have through := (registers.trans bodyContinues).emitEvent
    ⟨.popHandlers, [UInt8.ofNat clauses.length]⟩ rfl
    (show (Event.attempts clauses.length).Appears _ _ .popHandlers
      (UInt8.ofNat clauses.length) from
      .inl ⟨rfl, countEq⟩) rfl (by rintro ⟨⟩) line
  have lowers : Lowers held ([] ++ (pending clauses ++ (bodyNew ++
      [⟨.popHandlers, [UInt8.ofNat clauses.length]⟩]))) nest
      (afterBody.emit .popHandlers [UInt8.ofNat clauses.length] line) := by
    rw [List.nil_append, ← List.append_assoc]
    exact through.toLowers
  obtain ⟨finished, fixed, _, _⟩ :=
    lowers.patchHandlers rfl (by simpa using lands)
  obtain ⟨writes, lines⟩ := writes_patchHandlers lands
  refine (through.patch writes lines finished ?_ ?_).surveys fixed
  · simp [filter_registrations]
  · simp [sizes_registrations]

end Nest

open Nest

/-! ## Expressions -/

mutual

/-- Lowering an expression follows its survey. -/
theorem lowerExpr_surveys {nils : StatementNils}
    (expression : Expr)
    {survey : Survey} {held : List Emission} {nest later : Nest}
    (ready : nest.Ready held)
    (surveyed : Surveyed survey nest held)
    (lowered : lowerExpr nils expression nest = .ok later) :
    Surveys survey (expression.survey .clausesFirst survey) held
      nest later := by
  have begins := ready.continues surveyed
  cases expression with
  | ident name position =>
      simp only [lowerExpr] at lowered
      obtain ⟨⟨_, continues⟩, fixed⟩ := begins.loadVariable lowered
      exact continues.surveys fixed
  | literal value position =>
      simp only [lowerExpr] at lowered
      exact begins.literal lowered
  | binary op left right position =>
      obtain ⟨afterLeft, afterRight, leftLowered, rightLowered, rfl⟩ :=
        Lowered.binary lowered
      obtain ⟨_, leftContinues, _⟩ :=
        lowerExpr_surveys left ready surveyed leftLowered
      obtain ⟨_, rightContinues, _⟩ :=
        lowerExpr_surveys right leftContinues.toReady leftContinues.surveyed
          rightLowered
      have applied := (leftContinues.trans rightContinues).emit
        (show [].length = op.opcode.operandCount by cases op <;> rfl)
        (by cases op <;> rfl) position.debugLine
      split
      · have negated := applied.emit
          (show [].length = Opcode.not.operandCount from rfl) rfl
            position.debugLine
        exact negated.surveys rfl
      · exact applied.surveys rfl
  | unary op operand position =>
      obtain ⟨afterOperand, operandLowered, rfl⟩ := Lowered.unary lowered
      obtain ⟨_, continues, _⟩ :=
        lowerExpr_surveys operand ready surveyed operandLowered
      have applied := continues.emit
        (show [].length = op.opcode.operandCount by cases op <;> rfl)
        (by cases op <;> rfl) position.debugLine
      exact applied.surveys rfl
  | call callee arguments position =>
      obtain ⟨afterCallee, afterArguments, calleeLowered, argumentsLowered,
          few, rfl⟩ := Lowered.call lowered
      obtain ⟨_, calleeContinues, _⟩ :=
        lowerExpr_surveys callee ready surveyed calleeLowered
      obtain ⟨_, argumentsContinue⟩ :=
        lowerArguments_continue arguments calleeContinues.toReady
        calleeContinues.surveyed argumentsLowered
      have called := (calleeContinues.trans argumentsContinue).emit
        (show [UInt8.ofNat arguments.length].length = Opcode.call.operandCount
          from rfl) rfl
        position.debugLine
      exact called.surveys rfl
  | assign target value position =>
      obtain ⟨name, place, afterValue, slot, targeted, rfl, valueLowered,
          found, rfl⟩ := Lowered.assign lowered
      obtain ⟨_, valueContinues, _⟩ :=
        lowerExpr_surveys value ready surveyed valueLowered
      obtain ⟨targetContinues, aims⟩ := valueContinues.storeTarget found
      exact (targetContinues.emitStore aims position.debugLine).statementNil _
  | define name parameters body position =>
      obtain ⟨slot, targeted, draft, afterBody, pushed, found, started,
          bodyLowered, emitted, rfl⟩ := Lowered.define lowered
      obtain ⟨targetContinues, aims⟩ := begins.storeTarget found
      obtain ⟨index, _, produces, _⟩ :=
        targetContinues.toReady.nothing.function started
        (fun entered => lowerBlock_yields body entered bodyLowered) emitted
      have function := targetContinues.surveyed.function started
        (fun inside => lowerBlock_surveys body
          (targetContinues.toReady.enter started) inside bodyLowered)
        emitted produces.toLowers
      exact ((targetContinues.trans function).emitStore (aims.after function)
        position.debugLine).statementNil _
  | block body =>
      simp only [lowerExpr] at lowered
      exact lowerBlock_surveys body ready surveyed lowered
  | branch condition consequence alternative position =>
      obtain ⟨_, _, _, _, conditionLowered, consequenceLowered, elseLands,
        alternativeLowered, endLands⟩ := Lowered.branch lowered
      exact (lowerExpr_surveys condition ready surveyed conditionLowered).branch
        (fun inside known => lowerBlock_surveys consequence inside known
          consequenceLowered) elseLands
        (fun inside known => lowerOptional_surveys alternative inside known
          alternativeLowered) endLands
  | loop condition body position =>
      obtain ⟨_, _, _, _, conditionLowered, bodyLowered, returns, exitLands,
        rfl⟩ := Lowered.loop lowered
      have labelled := ready.label
      obtain ⟨_, loopContinues⟩ :=
        (lowerExpr_surveys condition labelled surveyed.label
          conditionLowered).loop labelled
          (fun inside known => lowerBlock_surveys body inside known bodyLowered)
            returns exitLands
      exact loopContinues.fromLabel.statementNil _
  | attempt body clauses position =>
      obtain ⟨few, _, _, _, clausesLowered, bodyLowered, lands⟩ :=
        Lowered.attempt lowered
      obtain ⟨pairs, registers, rfl, count⟩ :=
        lowerClauses_continue clauses ready surveyed clausesLowered
      rw [← count] at few lands
      simp only [Expr.survey, ← count]
      exact registers.attempt few
        (fun inside known => lowerBlock_surveys body inside known bodyLowered)
          lands
  | perform effect payload position =>
      obtain ⟨afterPayload, payloadLowered, emitted⟩ := Lowered.perform lowered
      obtain ⟨_, continues, _⟩ :=
        lowerOptional_surveys payload ready surveyed payloadLowered
      obtain ⟨⟨index, named⟩, indexed, result⟩ := Outcome.bind_eq_ok.1 emitted
      cases result
      have performed := (continues.nameIndex indexed).1.emit
        (show [index].length = Opcode.perform.operandCount from rfl) rfl
          position.debugLine
      exact performed.surveys rfl

theorem lowerOptional_surveys {nils : StatementNils}
    (expression : Option Expr)
    {line : UInt32} {survey : Survey} {held : List Emission} {nest later : Nest}
    (ready : nest.Ready held)
    (surveyed : Surveyed survey nest held)
    (lowered : lowerOptional nils expression line nest = .ok later) :
    Surveys survey (surveyOptional .clausesFirst expression survey) held
      nest later := by
  cases expression with
  | some expression =>
      simp only [lowerOptional] at lowered
      exact lowerExpr_surveys expression ready surveyed lowered
  | none =>
      simp only [lowerOptional] at lowered
      cases lowered
      have pushed := (ready.continues surveyed).emit
        (show [].length = Opcode.pushNil.operandCount from rfl) rfl line
      exact pushed.surveys rfl

theorem lowerBlock_surveys {nils : StatementNils}
    (block : Block)
    {survey : Survey} {held : List Emission} {nest later : Nest}
    (ready : nest.Ready held)
    (surveyed : Surveyed survey nest held)
    (lowered : lowerBlock nils block nest = .ok later) :
    Surveys survey (block.survey .clausesFirst survey) held nest later := by
  obtain ⟨expressions, position⟩ := block
  rcases Lowered.block lowered with ⟨rfl, rfl⟩ | ⟨some, rest⟩
  · exact (ready.continues surveyed).statementNil _
  · exact lowerSequence_surveys expressions some ready surveyed rest

theorem lowerSequence_surveys {nils : StatementNils}
    (expressions : List Expr) (some : expressions ≠ [])
    {survey : Survey} {held : List Emission} {nest later : Nest}
    (ready : nest.Ready held)
    (surveyed : Surveyed survey nest held)
    (lowered : lowerSequence nils expressions nest = .ok later) :
    Surveys survey (surveyAll .clausesFirst expressions survey) held
      nest later := by
  cases expressions with
  | nil => exact (some rfl).elim
  | cons first others =>
      obtain ⟨afterFirst, firstLowered, rest⟩ := Lowered.sequence lowered
      have firstSurveys := lowerExpr_surveys first ready surveyed firstLowered
      rcases rest with ⟨rfl, rfl⟩ | ⟨more, rest⟩
      · exact firstSurveys
      · obtain ⟨_, continues⟩ :=
          firstSurveys.discard nils first.position.debugLine
        exact continues.then
          (lowerSequence_surveys others more continues.toReady
            continues.surveyed rest)

theorem lowerArguments_continue {nils : StatementNils}
    (arguments : List Expr)
    {survey : Survey} {held : List Emission} {nest later : Nest}
    (ready : nest.Ready held)
    (surveyed : Surveyed survey nest held)
    (lowered : lowerArguments nils arguments nest = .ok later) :
    ∃ new, Continues survey (surveyAll .clausesFirst arguments survey) held new
      nest later := by
  cases arguments with
  | nil =>
      cases lowered
      exact ⟨_, ready.continues surveyed⟩
  | cons first others =>
      obtain ⟨afterFirst, firstLowered, rest⟩ := Lowered.arguments lowered
      obtain ⟨_, continues, _⟩ :=
        lowerExpr_surveys first ready surveyed firstLowered
      obtain ⟨_, othersContinue⟩ :=
        lowerArguments_continue others continues.toReady continues.surveyed rest
      exact ⟨_, continues.trans othersContinue⟩

theorem lowerClauses_continue {nils : StatementNils}
    (clauses : List Clause)
    {survey : Survey} {held : List Emission} {nest later : Nest}
    {places : List Nat}
    (ready : nest.Ready held)
    (surveyed : Surveyed survey nest held)
    (lowered : lowerClauses nils clauses nest = .ok (places, later)) :
    ∃ pairs, Continues survey (surveyClauses .clausesFirst clauses survey) held
        (pending pairs) nest later ∧
      places = sites (totalSize held) pairs ∧
      pairs.length = clauses.length := by
  cases clauses with
  | nil =>
      cases lowered
      exact ⟨[], ready.continues surveyed, rfl, rfl⟩
  | cons clause others =>
      obtain ⟨effect, parameter, body, position⟩ := clause
      obtain ⟨draft, afterBody, pushed, index, named, otherPlaces, started,
        bodyLowered, emitted, indexed, othersLowered, rfl⟩ :=
          Lowered.clauses lowered
      obtain ⟨function, _, produces, _⟩ := ready.nothing.function started
        (fun entered => lowerBlock_yields body entered bodyLowered) emitted
      have functionContinues := surveyed.function started
        (fun inside => lowerBlock_surveys body (ready.enter started) inside
          bodyLowered)
        emitted produces.toLowers
      have registered : Continues survey _ held
          (pending [(function, index)]) nest _ :=
        (functionContinues.nameIndex indexed).1.emit
          (show [index, 255, 255].length = Opcode.setHandler.operandCount
            from rfl) rfl position.debugLine
      obtain ⟨pairs, othersContinue, othersPlaces, count⟩ :=
        lowerClauses_continue others registered.toReady registered.surveyed
          othersLowered
      refine ⟨(function, index) :: pairs,
        registered.trans othersContinue, ?_, ?_⟩
      · rw [othersPlaces,
          (functionContinues.nameIndex indexed).1.toReady.offset]
        simp [sites, pending, Emission.size]
      · simp only [List.length_cons, count]

end

/-! ## Scripts -/

/-- Every program that compiles becomes a template that is as its sketch
tells. -/
theorem Block.compileWith_described {nils : StatementNils}
    {program : Block} {template : Template}
    (compiled : program.compileWith nils = .ok template) :
    program.sketch.Matches Sketch.Describes [] template := by
  obtain ⟨draft, lowered, started, bodyLowered, rfl⟩ := Lowered.program compiled
  obtain ⟨sound, holds, _, captures⟩ := Draft.start_spec started
  obtain ⟨slotNames, rfl, numbered, names⟩ := Draft.start_registry started
  have ready :
      (⟨{ name := scriptName, arity := 0, debug := { slotNames := slotNames } },
        [], 0⟩ :
      Nest).Ready [] := ⟨⟨sound, captures⟩, holds⟩
  have surveyed : Surveyed { scopes := [] }
      ⟨{ name := scriptName, arity := 0, debug := { slotNames := slotNames } },
        [], 0⟩ [] := by
    refine ⟨⟨⟨numbered, by simp [Draft.registry]⟩, ?_⟩, .nil, .nil,
      by simp, rfl⟩
    intro name slot found
    have member : name ∈ slotNames.map (·.1) :=
      List.mem_map.2 ⟨_, List.mem_reverse.1 (Registry.mem_slots found), rfl⟩
    rw [names] at member
    exact List.mem_singleton.1 member
  obtain ⟨_, continues, _⟩ :=
    lowerBlock_surveys program ready surveyed bodyLowered
  have returned := continues.emit
    (show [].length = Opcode.return.operandCount from rfl) rfl
    (lowered.current.lastLine program.position.debugLine)
  have described := returned.finish names
  have outermost : lowered.enclosing = [] :=
    List.forall₂_nil_left_iff.1 continues.waits
  rw [show (lowered.emit .return [] _).enclosing = [] from outermost]
    at described
  exact described

end EffectScript
