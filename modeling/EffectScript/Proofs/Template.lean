import EffectScript.Proofs.Shape

/-!
# Sound templates

A template is *laid out* as structured code when its bytes are the assembly of
that code and a final return, and when every operand refers to something that
the template has. It is *sound* when it is laid out as some code and all
templates in its constant pool are sound.
-/

namespace EffectScript

/-- What the operands of a function's code refer to. -/
structure Pools where
  constants : List Value
  names : List String
  /-- The count of slots. -/
  locals : Nat

namespace Pools

/-- Pools that hold at least as much, at the same indices. -/
structure Extends (pools more : Pools) : Prop where
  constants : pools.constants <+: more.constants
  names : pools.names <+: more.names
  locals : pools.locals ≤ more.locals

theorem Extends.refl (pools : Pools) : pools.Extends pools :=
  ⟨List.prefix_refl _, List.prefix_refl _, Nat.le_refl _⟩

theorem Extends.trans {first second third : Pools}
    (early : first.Extends second)
    (late : second.Extends third) :
    first.Extends third :=
  ⟨early.constants.trans late.constants, early.names.trans late.names,
    Nat.le_trans early.locals late.locals⟩

theorem Extends.constant {pools more : Pools}
    (extends_ : pools.Extends more)
    {index : Nat} {value : Value}
    (held : pools.constants[index]? = some value) :
    more.constants[index]? = some value := by
  obtain ⟨rest, restEq⟩ := extends_.constants
  have present : index < pools.constants.length :=
    (List.getElem?_eq_some_iff.1 held).1
  rw [← restEq, List.getElem?_append_left present, held]

end Pools

/-- The constant at an index is a function. -/
def Pools.IsFunction (pools : Pools) (index : UInt8) (template : Template) :
    Prop :=
  ∃ identity, pools.constants[index.toNat]? = some (.function identity template)

theorem Pools.IsFunction.unique {pools : Pools}
    {index : UInt8} {template other : Template}
    (isFunction : pools.IsFunction index template)
    (again : pools.IsFunction index other) :
    template = other := by
  obtain ⟨identity, held⟩ := isFunction
  obtain ⟨another, there⟩ := again
  cases held.symm.trans there
  rfl

/-- Whether the operands of an emission refer to something. -/
def Emission.Valid (pools : Pools) (emission : Emission) : Prop :=
  match emission.opcode with
  | .loadConst => ∃ value, pools.constants[emission.byte.toNat]? = some value ∧
      value.isScalar
  | .makeClosure => ∃ template, pools.IsFunction emission.byte template
  | .loadLocal | .storeLocal => emission.byte.toNat < pools.locals
  | .loadGlobal | .storeGlobal | .perform | .setHandler =>
      emission.byte.toNat < pools.names.length
  | _ => True

theorem Emission.Valid.mono {pools more : Pools}
    {emission : Emission}
    (valid : emission.Valid pools)
    (extends_ : pools.Extends more) :
    emission.Valid more := by
  have namesLe := extends_.names.length_le
  have localsLe := extends_.locals
  unfold Emission.Valid at *
  split at valid
  · obtain ⟨value, held, scalar⟩ := valid
    exact ⟨value, extends_.constant held, scalar⟩
  · obtain ⟨template, identity, held⟩ := valid
    exact ⟨template, identity, extends_.constant held⟩
  all_goals omega

namespace Code

/-- Whether all operands of the code refer to something, and handlers are
functions of one argument. -/
def Valid (pools : Pools) : Code → Prop
  | .nothing => True
  | .plain emission => emission.Valid pools
  | .sequence first second => first.Valid pools ∧ second.Valid pools
  | .branch condition consequence alternative =>
      condition.Valid pools ∧ consequence.Valid pools ∧ alternative.Valid pools
  | .loop condition body => condition.Valid pools ∧ body.Valid pools
  | .attempt clauses body =>
      (∀ clause ∈ clauses, clause.2.toNat < pools.names.length ∧
        ∃ template, pools.IsFunction clause.1 template ∧ template.arity = 1) ∧
          body.Valid pools

theorem Valid.mono {pools more : Pools} {code : Code}
    (valid : code.Valid pools)
    (extends_ : pools.Extends more) :
    code.Valid more := by
  induction code with
  | nothing => trivial
  | plain emission => exact Emission.Valid.mono valid extends_
  | sequence first second firstMono secondMono =>
      exact ⟨firstMono valid.1, secondMono valid.2⟩
  | branch condition consequence alternative conditionMono consequenceMono
        alternativeMono =>
      exact ⟨conditionMono valid.1, consequenceMono valid.2.1,
        alternativeMono valid.2.2⟩
  | loop condition body conditionMono bodyMono =>
      exact ⟨conditionMono valid.1, bodyMono valid.2⟩
  | attempt clauses body bodyMono =>
      refine ⟨fun clause member => ?_, bodyMono valid.2⟩
      obtain ⟨named, template, ⟨identity, held⟩, single⟩ :=
        valid.1 clause member
      exact ⟨Nat.lt_of_lt_of_le named extends_.names.length_le, template,
        ⟨identity, extends_.constant held⟩, single⟩

theorem valid_registrations {pools : Pools} {rest : Nat}
    {clauses : List (UInt8 × UInt8)}
    (valid : ∀ clause ∈ clauses, clause.2.toNat < pools.names.length ∧
      ∃ template, pools.IsFunction clause.1 template ∧ template.arity = 1)
    {emission : Emission}
    (member : emission ∈ registrations rest clauses) :
    emission.Valid pools := by
  induction clauses with
  | nil => cases member
  | cons clause others inner =>
      obtain ⟨named, template, isFunction, _⟩ := valid clause List.mem_cons_self
      simp only [registrations, List.mem_cons] at member
      rcases member with rfl | rfl | later
      · exact ⟨template, isFunction⟩
      · exact named
      · exact inner (fun other old => valid other (List.mem_cons_of_mem _ old))
          later

/-- All emissions of valid code are valid. -/
theorem Valid.emission {pools : Pools} {code : Code}
    (valid : code.Valid pools)
    {emission : Emission}
    (member : emission ∈ code.emissions) :
    emission.Valid pools := by
  induction code with
  | nothing => cases member
  | plain placed =>
      cases List.mem_singleton.1 member
      exact valid
  | sequence first second firstValid secondValid =>
      rcases List.mem_append.1 member with early | late
      · exact firstValid valid.1 early
      · exact secondValid valid.2 late
  | branch condition consequence alternative conditionValid consequenceValid
        alternativeValid =>
      simp only [emissions, List.mem_append, List.mem_cons] at member
      rcases member with inside | rfl | inside | rfl | inside
      · exact conditionValid valid.1 inside
      · trivial
      · exact consequenceValid valid.2.1 inside
      · trivial
      · exact alternativeValid valid.2.2 inside
  | loop condition body conditionValid bodyValid =>
      simp only [emissions, List.mem_append, List.mem_cons, List.not_mem_nil,
        or_false] at member
      rcases member with inside | rfl | inside | rfl
      · exact conditionValid valid.1 inside
      · trivial
      · exact bodyValid valid.2 inside
      · trivial
  | attempt clauses body bodyValid =>
      simp only [emissions, List.mem_append, List.mem_singleton] at member
      rcases member with inside | inside | rfl
      · exact valid_registrations valid.1 inside
      · exact bodyValid valid.2 inside
      · trivial

end Code

namespace Template

/-- What the operands of the template's code refer to. -/
def pools (template : Template) : Pools :=
  ⟨template.constants, template.names, template.locals⟩

/-- The emissions of a function with the given body, annotated with shapes. -/
def annotations (code : Code) : List (Shape × Emission) :=
  code.annotated 0 .initial ++ [(Shape.initial.raised 1, ⟨.return, []⟩)]

/-- The template is the assembly of the given body. -/
structure LaidOut (template : Template) (code : Code) : Prop where
  bytes : template.code.toList =
    assemble template.heapSlots (code.emissions ++ [⟨.return, []⟩])
  typed : code.Typed 0
  single : code.heightAfter 0 = 1
  fits : code.Fits
  valid : code.Valid template.pools
  arity : template.arity < template.locals
  heap : ∀ slot ∈ template.heapSlots, slot.toNat < template.locals
  captured : ∀ slot ∈ template.capturesInner, slot ∈ template.heapSlots
  paired : template.capturesOuter.length = template.capturesInner.length

/-- Boxes that a template captures come from slots of another one that hold
boxes. -/
def CapturesFrom (template outer : Template) : Prop :=
  ∀ slot ∈ template.capturesOuter, slot ∈ outer.heapSlots

/-- The template is laid out as structured code, and so are all templates that
it makes closures of. -/
inductive Sound : Template → Prop
  | intro {template : Template} (code : Code) (laidOut : template.LaidOut code)
      (functions : ∀ identity inner, .function identity inner ∈
          template.constants →
        inner.Sound)
      (captures : ∀ identity inner, .function identity inner ∈
          template.constants →
        inner.CapturesFrom template) :
      template.Sound

end Template

end EffectScript
