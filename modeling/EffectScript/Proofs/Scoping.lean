import EffectScript.Proofs.Sketch

/-!
# Scopes and slots

While a program is lowered, the names that its text has declared so far are
exactly those that have a slot of their own in the drafts; every other name with
a slot was captured from the draft around. Looking a name up may add captures to
several drafts at once, but it changes the meaning of no name, since a captured
name gets a new slot and only where it had none.

So the slot that a lookup finds leads outward, capture by capture, to the
function that declared the name.
-/

namespace EffectScript

namespace Registry

/-- The registry is an earlier state of the other one: names keep their slots,
and later captures got new ones. -/
structure Precedes (registry later : Registry) : Prop where
  slots : registry.slots <:+ later.slots
  slot : ∀ {name slot}, registry.slot? name = some slot →
    later.slot? name = some slot
  captures : ∀ capture ∈ registry.captures, capture ∈ later.captures
  fresh : ∀ capture ∈ later.captures, capture ∈ registry.captures ∨
    ∀ entry ∈ registry.slots, entry.2 ≠ capture.2

/-- The slots are numbered, and captures use them. -/
structure Ordered (registry : Registry) : Prop where
  numbered : Numbered registry.slots
  captured : ∀ capture ∈ registry.captures, capture.2.toNat <
    registry.slots.length

variable {registry later last : Registry} {name : String} {slot : UInt8}

theorem Precedes.refl (registry : Registry) : registry.Precedes registry :=
  ⟨List.suffix_refl _, id, fun _ held => held, fun _ held => .inl held⟩

theorem Precedes.trans
    (early : registry.Precedes later)
    (late : later.Precedes last) : registry.Precedes last where
  slots := early.slots.trans late.slots
  slot held := late.slot (early.slot held)
  captures capture held := late.captures capture (early.captures capture held)
  fresh := by
    intro capture member
    rcases late.fresh capture member with old | new
    · exact early.fresh capture old
    · exact .inr fun entry held => new entry (early.slots.subset held)

theorem mem_slots (held : registry.slot? name = some slot) :
    (name, slot) ∈ registry.slots := by
  obtain ⟨before, after, slotsEq, _⟩ := List.lookup_eq_some_iff.1 held
  simp [slotsEq]

@[simp]
theorem slot?_cons {slots : List (String × UInt8)}
    {captures : List (UInt8 × UInt8)} {other : String} :
    slot? ⟨(name, slot) :: slots, captures⟩ other =
      if other = name then some slot else slot? ⟨slots, captures⟩ other := by
  by_cases same : other = name
  · simp [slot?, same]
  · have different : (other == name) = false := by simpa using same
    simp [slot?, List.lookup_cons, same, different]

/-- A name that had no slot gets one. -/
theorem precedes_declare (unknown : registry.slot? name = none) :
    registry.Precedes ⟨(name, slot) :: registry.slots, registry.captures⟩ where
  slots := List.suffix_cons _ _
  slot := by
    intro other held same
    have different : other ≠ name := by
      rintro rfl
      cases unknown.symm.trans same
    rw [slot?_cons, if_neg different]
    exact same
  captures _ held := held
  fresh _ held := .inl held

/-- A name that had no slot gets one which receives a captured box. -/
theorem Ordered.precedes_capture
    (ordered : registry.Ordered)
    (unknown : registry.slot? name = none)
    (slotEq : slot.toNat = registry.slots.length)
    (outer : UInt8) :
    registry.Precedes
      ⟨(name, slot) :: registry.slots, registry.captures ++ [(outer, slot)]⟩
        where
  slots := List.suffix_cons _ _
  slot held := (precedes_declare unknown).slot held
  captures _ held := List.mem_append_left _ held
  fresh := by
    intro capture member
    rcases List.mem_append.1 member with old | new
    · exact .inl old
    · right
      cases List.mem_singleton.1 new
      intro entry held same
      have below := ordered.numbered.lt held
      rw [same, slotEq] at below
      exact Nat.lt_irrefl _ below

theorem Ordered.declare
    (ordered : registry.Ordered)
    (slotEq : slot.toNat = registry.slots.length) :
    Ordered ⟨(name, slot) :: registry.slots, registry.captures⟩ :=
  ⟨⟨slotEq, ordered.numbered⟩, fun capture held =>
    Nat.lt_succ_of_lt (ordered.captured capture held)⟩

theorem Ordered.capture
    (ordered : registry.Ordered)
    (slotEq : slot.toNat = registry.slots.length)
    (outer : UInt8) :
    Ordered ⟨(name, slot) :: registry.slots, registry.captures ++
      [(outer, slot)]⟩ := by
  refine ⟨⟨slotEq, ordered.numbered⟩, ?_⟩
  intro capture member
  rcases List.mem_append.1 member with old | new
  · exact Nat.lt_succ_of_lt (ordered.captured capture old)
  · cases List.mem_singleton.1 new
    rw [List.length_cons, slotEq]
    exact Nat.lt_succ_self _

end Registry

/-! ## Chains of registries -/

/-- Every registry of the chain is an earlier state of the one at its place. -/
abbrev ChainPrecedes (chain later : List Registry) : Prop :=
  List.Forall₂ Registry.Precedes chain later

/-- A slot leads to the same variable later on. -/
theorem StandsFor.mono {name : String}
    {chain later : List Registry} {level : Nat} {slot : UInt8}
    (stands : StandsFor name chain level slot)
    (precedes : ChainPrecedes chain later) :
    StandsFor name later level slot := by
  induction precedes generalizing level slot with
  | nil => exact stands.elim
  | cons head _ inner =>
      cases level with
      | zero =>
          obtain ⟨held, own⟩ := stands
          refine ⟨head.slot held, ?_⟩
          intro capture member same
          rcases head.fresh capture member with old | new
          · exact own capture old same
          · exact new _ (Registry.mem_slots held) same.symm
      | succ level =>
          obtain ⟨capture, member, same, further⟩ := stands
          exact ⟨capture, head.captures capture member, same, inner further⟩

theorem Event.Becomes.mono {chain later : List Registry}
    {names more : List String} {opcode : Opcode} {byte : UInt8} {event : Event}
    (becomes : event.Becomes chain names opcode byte)
    (precedes : ChainPrecedes chain later)
    (extends_ : names <+: more) :
    event.Becomes later more opcode byte := by
  have kept {name : String} (held : names[byte.toNat]? = some name) :
      more[byte.toNat]? = some name := by
    obtain ⟨rest, rfl⟩ := extends_
    have present := (List.getElem?_eq_some_iff.1 held).1
    rw [List.getElem?_append_left present, held]
  cases event with
  | reads name level =>
      cases level with
      | none => exact ⟨becomes.1, kept becomes.2⟩
      | some level => exact ⟨becomes.1, becomes.2.mono precedes⟩
  | writes name level =>
      cases level with
      | none => exact ⟨becomes.1, kept becomes.2⟩
      | some level => exact ⟨becomes.1, becomes.2.mono precedes⟩
  | attempts clauses => exact becomes
  | repeats => exact becomes

/-- What holds throughout a function holds later on. -/
theorem Sketch.Matches.mono
    {relation : List Registry → Sketch → Template → Prop}
    (persists : ∀ {chain later sketch template}, relation chain sketch
      template → ChainPrecedes chain later → relation later sketch template)
    {chain later : List Registry} {sketch : Sketch} {template : Template}
    (matches_ : sketch.Matches relation chain template)
    (precedes : ChainPrecedes chain later) :
    sketch.Matches relation later template := by
  induction matches_ generalizing later with
  | intro here count _ inner =>
      exact .intro (persists here precedes) count fun function inside paired =>
        inner function inside paired (.cons (.refl _) precedes)

/-! ## Scopes -/

/-- The function knows the names of its scope, and every other name that it
knows it captured from the function around it, which is not the script. -/
structure Registry.Knows
    (own outer : Registry) (scope : List String) (nested : Prop) : Prop where
  ordered : own.Ordered
  declared : ∀ name ∈ scope, ∃ slot, own.slot? name = some slot ∧
    ∀ capture ∈ own.captures, capture.2 ≠ slot
  captured : ∀ name slot, own.slot? name = some slot → name ∉ scope →
    nested ∧ ∃ capture ∈ own.captures, capture.2 = slot ∧
    outer.slot? name = some capture.1

/-- The functions of a chain know the names of the given scopes. The script
comes last and has no scope. -/
def Scoped : List Registry → List (List String) → Prop
  | [script], [] => script.Ordered ∧
      ∀ name slot, script.slot? name = some slot → name = scriptName
  | own :: outer :: beyond, scope :: scopes =>
      own.Knows outer scope (scopes ≠ []) ∧ Scoped (outer :: beyond) scopes
  | _, _ => False

/-- The place of the first scope that has a name. -/
def levelOf (name : String) (scopes : List (List String)) : Option Nat :=
  scopes.findIdx? fun scope => scope.contains name

theorem Survey.level?_eq (survey : Survey) (name : String) :
    survey.level? name = levelOf name survey.scopes := rfl

theorem levelOf_cons
    (name : String) (scope : List String)
    (scopes : List (List String)) :
    levelOf name (scope :: scopes) =
      if name ∈ scope then some 0 else (levelOf name scopes).map (· + 1) := by
  simp [levelOf, List.findIdx?_cons]

namespace Scoped

variable {own outer later : Registry} {beyond : List Registry}
    {scope : List String} {scopes : List (List String)} {name : String}
    {slot : UInt8}

theorem ordered (known : Scoped (own :: beyond) scopes) : own.Ordered := by
  cases beyond with
  | nil =>
      cases scopes with
      | nil => exact known.1
      | cons => exact known.elim
  | cons outer beyond =>
      cases scopes with
      | nil => exact known.elim
      | cons => exact known.1.ordered

/-- Outside all functions there is no scope. -/
theorem scopes_eq_nil (known : Scoped [own] scopes) : scopes = [] := by
  cases scopes with
  | nil => rfl
  | cons => exact known.elim

/-- Inside a function there is a scope. -/
theorem scopes_eq_cons (known : Scoped (own :: outer :: beyond) scopes) :
    ∃ scope others, scopes = scope :: others := by
  cases scopes with
  | nil => exact known.elim
  | cons scope others => exact ⟨scope, others, rfl⟩

/-- A slot that a function knows for a name leads to the function that declared
it. -/
theorem stands
    (known : Scoped (own :: beyond) scopes)
    (held : own.slot? name = some slot)
    (nested : scopes ≠ []) :
    ∃ level, levelOf name scopes = some level ∧
      StandsFor name (own :: beyond) level slot := by
  induction scopes generalizing own beyond slot with
  | nil => exact (nested rfl).elim
  | cons scope others inner =>
      cases beyond with
      | nil => exact known.elim
      | cons outer beyond =>
          obtain ⟨knows, rest⟩ := known
          rw [levelOf_cons]
          by_cases declared : name ∈ scope
          · obtain ⟨declaredSlot, there, uncaptured⟩ :=
              knows.declared name declared
            cases held.symm.trans there
            exact ⟨0, if_pos declared, held, uncaptured⟩
          · obtain ⟨further, capture, member, same, outside⟩ :=
              knows.captured name slot held declared
            obtain ⟨level, levelEq, stands⟩ := inner rest outside further
            refine ⟨level + 1, ?_, capture, member, same, stands⟩
            rw [if_neg declared, levelEq]
            rfl

/-- A function declares a name that was not known. -/
theorem declare
    (known : Scoped (own :: outer :: beyond) (scope :: scopes))
    (unknown : own.slot? name = none)
    (slotEq : slot.toNat = own.slots.length) :
    Scoped (⟨(name, slot) :: own.slots, own.captures⟩ :: outer :: beyond)
      ((name :: scope) :: scopes) := by
  obtain ⟨knows, rest⟩ := known
  have precedes := @Registry.precedes_declare own name slot unknown
  refine ⟨⟨knows.ordered.declare slotEq, ?_, ?_⟩, rest⟩
  · intro other member
    rcases List.mem_cons.1 member with rfl | old
    · refine ⟨slot, by simp, ?_⟩
      intro capture held same
      have below := knows.ordered.captured capture held
      rw [same, slotEq] at below
      exact Nat.lt_irrefl _ below
    · obtain ⟨oldSlot, held, uncaptured⟩ := knows.declared other old
      exact ⟨oldSlot, precedes.slot held, uncaptured⟩
  · intro other otherSlot held undeclared
    rw [List.mem_cons, not_or] at undeclared
    rw [Registry.slot?_cons, if_neg undeclared.1] at held
    exact knows.captured other otherSlot held undeclared.2

end Scoped

theorem Registry.Knows.precedes {own outer later : Registry}
    {scope : List String} {nested : Prop}
    (knows : own.Knows outer scope nested)
    (outerPrecedes : outer.Precedes later) :
    own.Knows later scope nested := by
  refine ⟨knows.ordered, knows.declared, ?_⟩
  intro name slot held undeclared
  obtain ⟨further, capture, member, same, outside⟩ :=
    knows.captured name slot held undeclared
  exact ⟨further, capture, member, same, outerPrecedes.slot outside⟩

/-- A function captures a name that it does not know from the function around
it. -/
theorem Registry.Knows.capture {own outer : Registry}
    {scope : List String} {nested : Prop} {name : String}
    {slot outerSlot : UInt8}
    (knows : own.Knows outer scope nested)
    (unknown : own.slot? name = none)
    (slotEq : slot.toNat = own.slots.length)
    (outside : outer.slot? name = some outerSlot)
    (further : nested) :
    Registry.Knows ⟨(name, slot) :: own.slots,
      own.captures ++ [(outerSlot, slot)]⟩ outer scope
      nested := by
  have precedes := knows.ordered.precedes_capture unknown slotEq outerSlot
  refine ⟨knows.ordered.capture slotEq outerSlot, ?_, ?_⟩
  · intro other member
    obtain ⟨oldSlot, held, uncaptured⟩ := knows.declared other member
    refine ⟨oldSlot, precedes.slot held, ?_⟩
    intro capture captured same
    rcases precedes.fresh capture captured with old | new
    · exact uncaptured capture old same
    · exact new _ (mem_slots held) same.symm
  · intro other otherSlot held undeclared
    rw [slot?_cons] at held
    split at held
    next same =>
      cases held
      subst same
      exact ⟨further, (outerSlot, slot), by simp, rfl, outside⟩
    next =>
      obtain ⟨deeper, capture, member, same, there⟩ :=
        knows.captured other otherSlot held undeclared
      exact ⟨deeper, capture, List.mem_append_left _ member, same, there⟩

/-! ## Lookup -/

namespace Draft

/-- A draft that waits while functions inside it are written: names may be
captured from it and through it. -/
structure Waits (draft later : Draft) : Prop where
  registry : draft.registry.Precedes later.registry
  lines : later.debug.lines = draft.debug.lines
  constants : later.constants = draft.constants
  names : later.names = draft.names

theorem Waits.refl (draft : Draft) : draft.Waits draft :=
  ⟨.refl _, rfl, rfl, rfl⟩

theorem Waits.trans {first second third : Draft}
    (early : first.Waits second)
    (late : second.Waits third) :
    first.Waits third :=
  ⟨early.registry.trans late.registry, late.lines.trans early.lines,
    late.constants.trans early.constants, late.names.trans early.names⟩

theorem waits_promote (draft : Draft) (slot : UInt8) :
    draft.Waits (draft.promote slot) := by
  unfold Draft.promote
  split
  · exact .refl draft
  · exact ⟨.refl _, rfl, rfl, rfl⟩

theorem registry_declare {draft later : Draft}
    {name : String} {line : UInt32} {slot : UInt8}
    (declared : draft.declare name line = .ok (slot, later)) :
    later.registry = ⟨(name, slot) :: draft.registry.slots,
      draft.registry.captures⟩ := by
  obtain ⟨_, rfl⟩ := declare_eq declared
  exact congrArg (Registry.mk · draft.captures) (draft.slots_addSlot name slot)

theorem registry_declareCapture {draft later : Draft}
    {name : String} {line : UInt32} {outer slot : UInt8}
    (declared : draft.declareCapture name outer line = .ok (slot, later)) :
    later.registry =
      ⟨(name, slot) :: draft.registry.slots, draft.registry.captures ++
        [(outer, slot)]⟩ := by
  obtain ⟨_, rfl⟩ := declareCapture_eq declared
  exact congrArg (Registry.mk · _) (draft.slots_addSlot name slot)

theorem registry_promote (draft : Draft) (slot : UInt8) :
    (draft.promote slot).registry = draft.registry := by
  unfold Draft.promote
  split <;> rfl

end Draft

theorem forall₂_waits_refl (drafts : List Draft) :
    List.Forall₂ Draft.Waits drafts drafts :=
  List.forall₂_same.2 fun draft _ => .refl draft

theorem forall₂_waits_trans
    {first second third : List Draft}
    (early : List.Forall₂ Draft.Waits first second)
    (late : List.Forall₂ Draft.Waits second third) :
    List.Forall₂ Draft.Waits first third := by
  induction early generalizing third with
  | nil => exact late
  | cons head _ inner =>
      cases late with
      | cons lateHead lateTail =>
          exact .cons (head.trans lateHead) (inner lateTail)

theorem chainPrecedes_of_waits {drafts later : List Draft}
    (waits : List.Forall₂ Draft.Waits drafts later) :
    ChainPrecedes (drafts.map Draft.registry) (later.map Draft.registry) := by
  rw [ChainPrecedes, List.forall₂_map_left_iff, List.forall₂_map_right_iff]
  exact waits.imp fun _ _ waits => waits.registry

/-- Looking up a name keeps the scopes. It finds the slot of the name, and it
finds one if the name is in any scope. -/
theorem Nest.resolveFrom_scoped {name : String}
    {line : UInt32} {current later : Draft}
    {enclosing laterEnclosing : List Draft} {found : Option UInt8}
    {scopes : List (List String)}
    (known : Scoped ((current :: enclosing).map Draft.registry) scopes)
    (resolved : resolveFrom name line current enclosing = .ok
      (found, later, laterEnclosing)) :
    Scoped ((later :: laterEnclosing).map Draft.registry) scopes ∧
      List.Forall₂ Draft.Waits (current :: enclosing)
        (later :: laterEnclosing) ∧
      found = later.registry.slot? name ∧
      (found = none → levelOf name scopes = none) := by
  induction enclosing
    generalizing current later laterEnclosing found scopes with
  | nil =>
      cases resolved
      refine ⟨known, forall₂_waits_refl _, rfl, fun _ => ?_⟩
      cases known.scopes_eq_nil
      rfl
  | cons outer beyond inner =>
      obtain ⟨scope, others, rfl⟩ := known.scopes_eq_cons
      obtain ⟨knows, rest⟩ := known
      have undeclared (unknown : current.slot? name = none) : name ∉ scope := by
        intro declared
        obtain ⟨slot, held, _⟩ := knows.declared name declared
        cases unknown.symm.trans held
      simp only [resolveFrom] at resolved
      split at resolved
      next slot held =>
        cases resolved
        exact ⟨⟨knows, rest⟩, forall₂_waits_refl _, held.symm, by rintro ⟨⟩⟩
      next unknown =>
        split at resolved
        next outermost =>
          cases resolved
          refine ⟨⟨knows, rest⟩, forall₂_waits_refl _, unknown.symm,
            fun _ => ?_⟩
          cases List.isEmpty_iff.1 outermost
          cases rest.scopes_eq_nil
          rw [levelOf_cons, if_neg (undeclared unknown)]
          rfl
        next nested =>
          obtain ⟨⟨outerFound, outerLater, beyondLater⟩, outerResolved,
              remaining⟩ :=
            Outcome.bind_eq_ok.1 resolved
          obtain ⟨outerScoped, outerWaits, outerSlot, outerLevel⟩ :=
            inner rest outerResolved
          have outerPrecedes : outer.registry.Precedes outerLater.registry := by
            cases outerWaits with
            | cons head _ => exact head.registry
          cases outerFound with
          | none =>
              cases remaining
              refine ⟨⟨knows.precedes outerPrecedes, outerScoped⟩,
                .cons (.refl _) outerWaits, unknown.symm, fun _ => ?_⟩
              rw [levelOf_cons, if_neg (undeclared unknown), outerLevel rfl]
              rfl
          | some slotOutside =>
              obtain ⟨⟨slot, captured⟩, declared, result⟩ :=
                Outcome.bind_eq_ok.1 remaining
              cases result
              have registry := Draft.registry_declareCapture declared
              obtain ⟨slotEq, rfl⟩ := Draft.declareCapture_eq declared
              have further : others ≠ [] := by
                obtain ⟨next, deeper, beyondEq⟩ :=
                  List.exists_cons_of_ne_nil (by simpa using nested)
                rw [beyondEq] at rest
                obtain ⟨_, _, rfl⟩ := rest.scopes_eq_cons
                exact List.cons_ne_nil _ _
              have capturing := knows.ordered.precedes_capture unknown
                slotEq slotOutside
              have promoted : List.Forall₂ Draft.Waits (outer :: beyond)
                  (outerLater.promote slotOutside :: beyondLater) := by
                cases outerWaits with
                | cons head tail =>
                    exact .cons (head.trans (Draft.waits_promote _ _)) tail
              refine ⟨⟨?_, ?_⟩, .cons ⟨registry ▸ capturing, rfl, rfl, rfl⟩
                promoted, ?_,
                by rintro ⟨⟩⟩
              · rw [Draft.registry_promote, registry]
                exact (knows.precedes outerPrecedes).capture unknown slotEq
                  outerSlot.symm further
              · simpa only [List.map_cons, Draft.registry_promote]
                  using outerScoped
              · exact ((congrArg (Registry.slot? · name) registry).trans
                  List.lookup_cons_self).symm

end EffectScript
