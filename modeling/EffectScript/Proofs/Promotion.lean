import EffectScript.Proofs.Points
import EffectScript.Proofs.Writing
import EffectScript.Script

/-!
# Captures and promotion

A capture is found while an inner function is being written, and it promotes a
slot of an outer function whose code is partly written already. The drafts
around the one being written form a *chain*: each captured slot stands for a
name, and the slot of the next draft that it is captured from stands for the
same name. Slots are numbered in the order of their declaration and a name is
captured only while it has no slot, so no slot is captured twice.

The main statement is that in every compiled function exactly the slots that
hold boxes are accessed through boxes, and that the captures of all functions
fit together.
-/

namespace EffectScript

/-! ## Numbered slots -/

/-- Slots with the newest one first, numbered in the order of their
declaration. -/
def Numbered : List (String × UInt8) → Prop
  | [] => True
  | (_, slot) :: older => slot.toNat = older.length ∧ Numbered older

namespace Numbered

variable {slots : List (String × UInt8)}

theorem lt
    (numbered : Numbered slots)
    {entry : String × UInt8}
    (member : entry ∈ slots) :
    entry.2.toNat < slots.length := by
  induction slots with
  | nil => cases member
  | cons newest older inner =>
      obtain ⟨numberEq, olderNumbered⟩ := numbered
      rw [List.length_cons]
      rcases List.mem_cons.1 member with rfl | old
      · omega
      · have := inner olderNumbered old
        omega

/-- A slot has one name. -/
theorem name_unique
    (numbered : Numbered slots)
    {name other : String} {slot : UInt8}
    (named : (name, slot) ∈ slots)
    (again : (other, slot) ∈ slots) :
    name = other := by
  induction slots with
  | nil => cases named
  | cons newest older inner =>
      obtain ⟨numberEq, olderNumbered⟩ := numbered
      rcases List.mem_cons.1 named
        with rfl | old <;> rcases List.mem_cons.1 again with same | oldAgain
      · exact (Prod.mk.inj same).1.symm
      · have := olderNumbered.lt oldAgain
        simp only at this numberEq
        omega
      · cases same
        have := olderNumbered.lt old
        simp only at this numberEq
        omega
      · exact inner olderNumbered old oldAgain

end Numbered

/-! ## Drafts -/

/-- The captures of the template are in order, and so are those of all templates
inside it. -/
inductive Template.Tidy : Template → Prop
  | intro {template : Template} (inner : template.capturesInner.Nodup)
      (beyond : ∀ slot ∈ template.capturesInner, template.arity < slot.toNat)
      (outer : template.capturesOuter.Nodup)
      (heap : template.heapSlots.Pairwise (· < ·))
      (functions : ∀ identity inner, .function identity inner ∈
        template.constants → inner.Tidy) :
      template.Tidy

namespace Draft

/-- The slots of the draft are numbered, and captured names got their slots one
after the other, each while its name had none. -/
structure Tidy (draft : Draft) : Prop where
  numbered : Numbered draft.slots
  arity : draft.arity < draft.slots.length
  ascending : draft.captures.Pairwise fun earlier later =>
    earlier.2.toNat < later.2.toNat
  beyond : ∀ capture ∈ draft.captures,
    draft.arity < capture.2.toNat ∧ capture.2.toNat < draft.slots.length
  first : ∀ capture ∈ draft.captures, ∀ name other, (name, capture.2) ∈
      draft.slots →
    (name, other) ∈ draft.slots → capture.2.toNat ≤ other.toNat
  heap : draft.heapSlots.Pairwise (· < ·)
  functions : ∀ identity inner, .function identity inner ∈
    draft.constants → inner.Tidy

variable {draft later : Draft} {name : String} {line : UInt32} {slot : UInt8}

/-- Slots stay in ascending order. -/
theorem sorted_insertSlot {slots : List UInt8}
    (sorted : slots.Pairwise (· < ·)) :
    (insertSlot slot slots).Pairwise (· < ·) := by
  induction slots with
  | nil => exact List.pairwise_singleton _ _
  | cons first rest inner =>
      obtain ⟨least, restSorted⟩ := List.pairwise_cons.1 sorted
      simp only [insertSlot]
      split
      next less =>
        refine List.pairwise_cons.2 ⟨?_, sorted⟩
        intro other member
        rcases List.mem_cons.1 member with rfl | later
        · exact less
        · exact UInt8.lt_trans less (least other later)
      next notLess =>
        split
        next => exact sorted
        next different =>
          refine List.pairwise_cons.2 ⟨?_, inner restSorted⟩
          intro other member
          rcases mem_insertSlot.1 member with rfl | old
          · exact UInt8.lt_of_le_of_ne (UInt8.not_lt.1 notLess) fun same =>
              different same.symm
          · exact least other old

/-- What `Tidy` says depends on slots, captures, arity, boxed slots and
functions only. -/
theorem Tidy.congr
    (tidy : draft.Tidy)
    (slots : later.slots = draft.slots)
    (arity : later.arity = draft.arity)
    (captures : later.captures = draft.captures)
    (heap : later.heapSlots.Pairwise (· < ·))
    (functions : ∀ identity inner, .function identity inner ∈ later.constants →
      inner.Tidy) :
    later.Tidy := by
  constructor
  · simpa [slots] using tidy.numbered
  · simpa [slots, arity] using tidy.arity
  · simpa [captures] using tidy.ascending
  · simpa [captures, slots, arity] using tidy.beyond
  · simpa [captures, slots] using tidy.first
  · exact heap
  · exact functions

theorem Tidy.declare
    (tidy : draft.Tidy)
    (declared : draft.declare name line = .ok (slot, later)) :
    later.Tidy := by
  obtain ⟨slotEq, rfl⟩ := declare_eq declared
  have slots := draft.slots_addSlot name slot
  have count := draft.length_slots_addSlot name slot
  refine ⟨slots ▸ ⟨slotEq, tidy.numbered⟩, count ▸ Nat.lt_succ_of_lt tidy.arity,
    tidy.ascending, ?_, ?_, tidy.heap, tidy.functions⟩
  · intro capture member
    obtain ⟨low, high⟩ := tidy.beyond capture member
    exact ⟨low, count ▸ Nat.lt_succ_of_lt high⟩
  · intro capture member other another named again
    obtain ⟨_, high⟩ := tidy.beyond capture member
    rw [slots] at named again
    have old : (other, capture.2) ∈ draft.slots := by
      rcases List.mem_cons.1 named with new | old
      · cases new
        omega
      · exact old
    rcases List.mem_cons.1 again with new | oldAgain
    · cases new
      omega
    · exact tidy.first capture member other another old oldAgain

/-- A name that has no slot is captured into a new one. -/
theorem Tidy.declareCapture {outerSlot : UInt8}
    (tidy : draft.Tidy)
    (unknown : draft.slot? name = none)
    (declared : draft.declareCapture name outerSlot line = .ok (slot, later)) :
    later.Tidy ∧ later.slots = (name, slot) :: draft.slots ∧
      later.captures = draft.captures ++ [(outerSlot, slot)] := by
  obtain ⟨⟨newSlot, plain⟩, plainDeclared, result⟩ :=
    Outcome.bind_eq_ok.1 declared
  have plainTidy := tidy.declare plainDeclared
  obtain ⟨slotEq, rfl⟩ := declare_eq plainDeclared
  cases result
  have unnamed : ∀ other, (name, other) ∉ draft.slots := by
    intro other member
    have absent := List.lookup_eq_none_iff.1 unknown _ member
    simp at absent
  have arity := tidy.arity
  refine ⟨⟨plainTidy.numbered, plainTidy.arity, ?_, ?_, ?_,
    sorted_insertSlot plainTidy.heap, plainTidy.functions⟩,
    draft.slots_addSlot name slot, rfl⟩
  · refine List.pairwise_append.2
      ⟨tidy.ascending, List.pairwise_singleton _ _, ?_⟩
    intro earlier member last isLast
    cases List.mem_singleton.1 isLast
    have := (tidy.beyond earlier member).2
    simp only
    omega
  · intro capture member
    rcases List.mem_append.1 member with old | new
    · exact plainTidy.beyond capture old
    · cases List.mem_singleton.1 new
      have count := draft.length_slots_addSlot name slot
      exact ⟨slotEq ▸ arity, count ▸ slotEq ▸ Nat.lt_succ_self _⟩
  · intro capture member other another named again
    rcases List.mem_append.1 member with old | new
    · exact plainTidy.first capture old other another named again
    · cases List.mem_singleton.1 new
      -- The new slot has one name, and no older slot has that name.
      have newest : (name, slot) ∈ (draft.addSlot name slot).slots := by simp
      have nameEq : other = name := plainTidy.numbered.name_unique named newest
      subst nameEq
      have again : (other, another) ∈ (draft.addSlot other slot).slots := again
      rw [draft.slots_addSlot] at again
      rcases List.mem_cons.1 again with new | impossible
      · cases new
        exact Nat.le_refl _
      · exact absurd impossible (unnamed another)

theorem declareAll_numbered {names : List String}
    (declared : draft.declareAll line names = .ok later)
    (numbered : Numbered draft.slots) :
    ∃ slotNames, later =
        { draft with debug := { draft.debug with slotNames := slotNames } } ∧
      Numbered later.slots ∧
      later.slots.length = draft.slots.length + names.length := by
  induction names generalizing draft with
  | nil =>
      cases declared
      exact ⟨later.debug.slotNames, rfl, numbered, rfl⟩
  | cons first others inner =>
      obtain ⟨⟨slot, next⟩, firstDeclared, rest⟩ :=
        Outcome.bind_eq_ok.1 declared
      obtain ⟨slotEq, rfl⟩ := declare_eq firstDeclared
      obtain ⟨slotNames, laterEq, laterNumbered, count⟩ :=
        inner rest (draft.slots_addSlot first slot ▸ ⟨slotEq, numbered⟩)
      refine ⟨slotNames, laterEq, laterNumbered, ?_⟩
      rw [count, draft.length_slots_addSlot, List.length_cons]
      omega

theorem start_tidy {parameters : List String}
    (started : Draft.start name parameters line = .ok draft) :
    draft.Tidy ∧ draft.captures = [] := by
  obtain ⟨slotNames, rfl, numbered, count⟩ :=
    declareAll_numbered started trivial
  refine ⟨⟨numbered, ?_, .nil, by simp, by simp, .nil, by simp⟩, rfl⟩
  rw [count, List.length_cons]
  exact Nat.lt_of_lt_of_le (Nat.lt_succ_self _) (Nat.le_add_left _ _)

end Draft

/-! ## Chains of drafts -/

/-- The functions among the constants capture nothing. -/
def NoneCapture (constants : List Value) : Prop :=
  ∀ identity inner, .function identity inner ∈ constants →
    inner.capturesOuter = [] ∧ inner.capturesInner = []

/-- Drafts from the innermost one outward in which every captured slot has the
name of the slot that it is captured from. The script provides no captures and
has none. -/
def Chained : List Draft → Prop
  | [] => True
  | [script] => script.Tidy ∧ script.captures = [] ∧
      NoneCapture script.constants
  | inner :: outer :: beyond =>
      inner.Tidy ∧ (beyond = [] → inner.captures = []) ∧
        (∀ capture ∈ inner.captures,
          ∃ name, (name, capture.2) ∈ inner.slots ∧
            (name, capture.1) ∈ outer.slots) ∧
        Chained (outer :: beyond)

namespace Chained

variable {draft later outer : Draft} {beyond : List Draft}

theorem tidy (chained : Chained (draft :: beyond)) : draft.Tidy := by
  cases beyond with
  | nil => exact chained.1
  | cons outer beyond => exact chained.1

/-- The innermost draft may be replaced by one that has at least its slots and
the same captures. -/
theorem replace
    (chained : Chained (draft :: beyond))
    (tidy : later.Tidy)
    (slots : ∀ entry ∈ draft.slots, entry ∈ later.slots)
    (captures : later.captures = draft.captures)
    (functions : beyond = [] → NoneCapture draft.constants →
      NoneCapture later.constants) :
    Chained (later :: beyond) := by
  cases beyond with
  | nil => exact ⟨tidy, captures.trans chained.2.1, functions rfl chained.2.2⟩
  | cons outer beyond =>
      obtain ⟨_, inScript, linked, rest⟩ := chained
      refine ⟨tidy, fun outermost =>
        captures.trans (inScript outermost), ?_, rest⟩
      intro capture member
      rw [captures] at member
      obtain ⟨name, here, there⟩ := linked capture member
      exact ⟨name, slots _ here, there⟩

/-- Writing code changes neither the slots nor the constants. -/
theorem alike
    (chained : Chained (draft :: beyond))
    (alike : draft.Alike later) :
    Chained (later :: beyond) := by
  refine chained.replace ?_ (by simp [alike.slots]) alike.captures fun _ none =>
    alike.constants ▸ none
  exact chained.tidy.congr alike.slots alike.arity alike.captures
    (alike.heapSlots ▸ chained.tidy.heap)
      (alike.constants ▸ chained.tidy.functions)

/-- Pooling a constant keeps the drafts chained if a function is tidy, and
captures nothing directly inside the script. -/
theorem addConstant
    (chained : Chained (draft :: beyond))
    {value : Value} {line : UInt32} {index : UInt8}
    (tidy : ∀ identity inner, value = .function identity inner → inner.Tidy)
    (uncaptured : beyond = [] → ∀ identity inner, value = .function identity
      inner → inner.capturesOuter = [] ∧ inner.capturesInner = [])
    (pooled : draft.addConstant value line = .ok (index, later)) :
    Chained (later :: beyond) := by
  rcases Draft.addConstant_cases pooled with ⟨_, _, rfl⟩ | ⟨_, _, _, rfl⟩
  · exact chained
  · refine chained.replace (chained.tidy.congr rfl rfl rfl chained.tidy.heap ?_)
      (fun _ held => held) rfl ?_
    · intro identity inner member
      rcases List.mem_append.1 member with old | new
      · exact chained.tidy.functions identity inner old
      · exact tidy identity inner (List.mem_singleton.1 new).symm
    · intro outermost none identity inner member
      rcases List.mem_append.1 member with old | new
      · exact none identity inner old
      · exact uncaptured outermost identity inner
          (List.mem_singleton.1 new).symm

/-- The drafts around one may get more slots. -/
theorem under {changed : Draft} {others : List Draft}
    (chained : Chained (draft :: outer :: beyond))
    (around : Chained (changed :: others))
    (kept : ∀ entry ∈ outer.slots, entry ∈ changed.slots)
    (deep : others ≠ []) :
    Chained (draft :: changed :: others) := by
  obtain ⟨tidy, _, linked, _⟩ := chained
  refine ⟨tidy, fun shallow => absurd shallow deep,
    fun capture member => ?_, around⟩
  obtain ⟨name, here, there⟩ := linked capture member
  exact ⟨name, here, kept _ there⟩

/-- A slot is promoted to a box. -/
theorem promote (chained : Chained (draft :: beyond)) (slot : UInt8) :
    Chained (draft.promote slot :: beyond) := by
  unfold Draft.promote
  split
  · exact chained
  · exact chained.replace (chained.tidy.congr rfl rfl rfl
      (Draft.sorted_insertSlot chained.tidy.heap) chained.tidy.functions)
      (fun _ held => held) rfl fun _ none => none

/-- A name that is new in a draft is captured from the slot that has it in the
next draft. -/
theorem capture
    (chained : Chained (draft :: outer :: beyond))
    (deep : beyond ≠ [])
    {name : String} {slot outerSlot : UInt8} {line : UInt32}
    (unknown : draft.slot? name = none)
    (named : (name, outerSlot) ∈ outer.slots)
    (declared : draft.declareCapture name outerSlot line = .ok (slot, later)) :
    Chained (later :: outer.promote outerSlot :: beyond) ∧
    later.slots = (name, slot) :: draft.slots := by
  obtain ⟨tidy, _, linked, outerChained⟩ := chained
  obtain ⟨laterTidy, slotsEq, capturesEq⟩ :=
    tidy.declareCapture unknown declared
  have promoted : (outer.promote outerSlot).slots = outer.slots := by
    unfold Draft.promote
    split <;> rfl
  refine
    ⟨⟨laterTidy, fun shallow => absurd shallow deep, fun capture member => ?_,
    outerChained.promote outerSlot⟩, slotsEq⟩
  rw [capturesEq] at member
  rw [promoted, slotsEq]
  rcases List.mem_append.1 member with old | new
  · obtain ⟨oldName, here, there⟩ := linked capture old
    exact ⟨oldName, List.mem_cons_of_mem _ here, there⟩
  · cases List.mem_singleton.1 new
    exact ⟨name, List.mem_cons_self, named⟩

/-- No slot of the next draft is captured twice. -/
theorem outer_nodup (chained : Chained (draft :: outer :: beyond)) :
    (draft.captures.map (·.1)).Nodup := by
  obtain ⟨tidy, _, linked, rest⟩ := chained
  refine List.pairwise_map.2 (tidy.ascending.imp_of_mem ?_)
  intro earlier later member laterMember less same
  obtain ⟨name, here, there⟩ := linked earlier member
  obtain ⟨laterName, laterHere, laterThere⟩ := linked later laterMember
  have nameEq : name = laterName :=
    rest.tidy.numbered.name_unique there (same ▸ laterThere)
  subst nameEq
  have := tidy.first later laterMember name earlier.2 laterHere here
  omega

/-- A draft is finished to a tidy template, which captures nothing directly
inside the script. -/
theorem finish (chained : Chained (draft :: outer :: beyond)) :
    draft.finish.Tidy ∧
      (beyond = [] → draft.finish.capturesOuter = [] ∧
        draft.finish.capturesInner = []) := by
  have outerNodup := chained.outer_nodup
  obtain ⟨tidy, inScript, _⟩ := chained
  refine ⟨.intro ?_ ?_ outerNodup tidy.heap tidy.functions, fun outermost => ?_⟩
  · refine List.pairwise_map.2 (tidy.ascending.imp ?_)
    rintro earlier later less same
    rw [same] at less
    exact Nat.lt_irrefl _ less
  · intro slot member
    obtain ⟨capture, held, rfl⟩ := List.mem_map.1 member
    exact (tidy.beyond capture held).1
  · simp [Draft.finish, inScript outermost]

end Chained

namespace Nest

/-- Looking up a name keeps the drafts chained, and the slot that it gives has
that name. -/
theorem resolveFrom_chained {name : String} {line : UInt32}
    {current later : Draft} {enclosing laterEnclosing : List Draft}
    {found : Option UInt8}
    (chained : Chained (current :: enclosing))
    (resolved : resolveFrom name line current enclosing = .ok
      (found, later, laterEnclosing)) :
    Chained (later :: laterEnclosing) ∧
    laterEnclosing.length = enclosing.length ∧
      (∀ entry ∈ current.slots, entry ∈ later.slots) ∧
      ∀ slot, found = some slot → (name, slot) ∈ later.slots := by
  have known {draft : Draft} {slot : UInt8}
      (held : draft.slot? name = some slot) :
      (name, slot) ∈ draft.slots := by
    obtain ⟨before, after, slotsEq, _⟩ := List.lookup_eq_some_iff.1 held
    simp [slotsEq]
  induction enclosing generalizing current later laterEnclosing found with
  | nil =>
      cases resolved
      exact ⟨chained, rfl, fun _ held => held, fun slot held => known held⟩
  | cons outer beyond inner =>
      simp only [resolveFrom] at resolved
      split at resolved
      next slot held =>
        cases resolved
        refine ⟨chained, rfl, fun _ old => old, ?_⟩
        rintro _ ⟨⟩
        exact known held
      next unknown =>
        split at resolved
        · cases resolved
          exact ⟨chained, rfl, fun _ old => old, by rintro _ ⟨⟩⟩
        next inside =>
          obtain ⟨⟨outerFound, outerLater, beyondLater⟩, outerResolved, rest⟩ :=
            Outcome.bind_eq_ok.1 resolved
          obtain ⟨laterChained, count, kept, outerNamed⟩ :=
            inner chained.2.2.2 outerResolved
          have deep : beyondLater ≠ [] := by
            rintro rfl
            exact inside (by simpa using count.symm)
          have replaced := chained.under laterChained kept deep
          cases outerFound with
          | none =>
              cases rest
              exact ⟨replaced, by simp [count], fun _ old => old, by
                rintro _ ⟨⟩⟩
          | some slotOutside =>
              obtain ⟨⟨slot, captured⟩, declared, result⟩ :=
                Outcome.bind_eq_ok.1 rest
              cases result
              obtain ⟨capturedChained, slotsEq⟩ :=
                replaced.capture deep unknown
                  (outerNamed slotOutside rfl) declared
              rw [slotsEq]
              refine ⟨capturedChained, by simp [count], fun _ old =>
                List.mem_cons_of_mem _ old, ?_⟩
              rintro _ ⟨⟩
              exact List.mem_cons_self

/-- A function begins inside another one. -/
theorem enter_chained {outer : Nest} {draft : Draft}
    {name : String} {parameters : List String} {line : UInt32}
    (chained : Chained (outer.current :: outer.enclosing))
    (starts : Draft.start name parameters line = .ok draft) :
    Chained
      ((outer.enter draft line).current ::
        (outer.enter draft line).enclosing) := by
  obtain ⟨tidy, noCaptures⟩ := Draft.start_tidy starts
  refine ⟨tidy.congr rfl rfl rfl tidy.heap tidy.functions, fun _ => noCaptures,
    ?_, chained⟩
  intro capture member
  rw [show (outer.enter draft line).current.captures = [] from noCaptures]
    at member
  cases member

/-- A function ends and becomes a tidy template. -/
theorem leave_chained {body : Nest}
    (outer : Nest) (line : UInt32)
    (chained : Chained (body.current :: body.enclosing))
    (inside : body.enclosing ≠ []) :
    Chained
        ((body.leave outer line).2.current ::
          (body.leave outer line).2.enclosing) ∧
      (body.leave outer line).1.Tidy ∧
      ((body.leave outer line).2.enclosing = [] →
        (body.leave outer line).1.capturesOuter = [] ∧
        (body.leave outer line).1.capturesInner = []) := by
  cases enclosingEq : body.enclosing with
  | nil => exact absurd enclosingEq inside
  | cons outerLater beyond =>
      obtain ⟨current, enclosing⟩ := leave_eq enclosingEq outer line
      rw [current, enclosing]
      rw [enclosingEq] at chained
      have returned :
          Chained ((body.emitReturn line).current :: outerLater :: beyond) :=
        chained.alike (Draft.alike_emit _ _ _ _)
      exact ⟨chained.2.2.2, returned.finish⟩

/-- Lowering keeps the drafts chained. -/
theorem Edits.chained {nest later : Nest}
    (edits : Edits nest later)
    (chained : Chained (nest.current :: nest.enclosing)) :
    Chained (later.current :: later.enclosing) ∧
      later.enclosing.length = nest.enclosing.length := by
  induction edits with
  | refl nest => exact ⟨chained, rfl⟩
  | @write nest later draft _ alike inner =>
      obtain ⟨laterChained, count⟩ := inner chained
      exact ⟨laterChained.alike alike, count⟩
  | @resolve nest later last name line found _ resolved inner =>
      obtain ⟨laterChained, count⟩ := inner chained
      obtain ⟨⟨_, current, enclosing⟩, searched, result⟩ :=
        Outcome.bind_eq_ok.1 resolved
      cases result
      obtain ⟨lastChained, lastCount, _⟩ :=
        resolveFrom_chained laterChained searched
      exact ⟨lastChained, lastCount.trans count⟩
  | @declare nest later name line slot draft _ _ declared inner =>
      obtain ⟨laterChained, count⟩ := inner chained
      have tidy := laterChained.tidy.declare declared
      obtain ⟨_, rfl⟩ := Draft.declare_eq declared
      exact ⟨laterChained.replace tidy (fun _ old => by simp [old]) rfl
        (fun _ none => none), count⟩
  | @nameIndex nest later name line index draft _ named inner =>
      obtain ⟨laterChained, count⟩ := inner chained
      rcases Draft.nameIndex_cases named with ⟨_, rfl⟩ | ⟨_, _, _, rfl⟩
      · exact ⟨laterChained, count⟩
      · exact ⟨laterChained.replace
          (laterChained.tidy.congr rfl rfl rfl laterChained.tidy.heap
          laterChained.tidy.functions)
          (fun _ old => old) rfl (fun _ none => none), count⟩
  | @constant nest later value line index draft _ scalar pooled inner =>
      obtain ⟨laterChained, count⟩ := inner chained
      refine ⟨laterChained.addConstant ?_ ?_ pooled, count⟩
      · rintro _ _ rfl
        cases scalar
      · rintro _ _ _ rfl
        cases scalar
  | @function nest outer body name parameters line started pool index identity
      finished _ starts _ pooled outerKeeps bodyKeeps =>
      obtain ⟨outerChained, count⟩ := outerKeeps chained
      obtain ⟨bodyChained, bodyCount⟩ :=
        bodyKeeps (enter_chained outerChained starts)
      have inside : body.enclosing ≠ [] :=
        List.ne_nil_of_length_pos (bodyCount ▸ Nat.succ_pos _)
      obtain ⟨outerLater, beyond, enclosingEq⟩ :=
        List.exists_cons_of_ne_nil inside
      obtain ⟨leftChained, templateTidy, uncaptured⟩ :=
        leave_chained outer line bodyChained inside
      refine ⟨leftChained.addConstant ?_ ?_ pooled, ?_⟩
      · rintro _ _ ⟨⟩
        exact templateTidy
      · rintro outermost _ _ ⟨⟩
        exact uncaptured outermost
      · rw [enclosingEq] at bodyCount
        rw [(leave_eq enclosingEq outer line).2]
        exact (Nat.succ.inj bodyCount).trans count

end Nest

/-- Every program that compiles becomes a tidy template without captures, and
the functions directly inside it capture nothing. -/
theorem Block.compileWith_tidy {nils : StatementNils}
    {program : Block} {template : Template}
    (compiled : program.compileWith nils = .ok template) :
    template.Tidy ∧ template.capturesOuter = [] ∧ template.capturesInner = [] ∧
      NoneCapture template.constants := by
  obtain ⟨draft, lowered, started, bodyLowered, rfl⟩ := Lowered.program compiled
  obtain ⟨tidy, noCaptures⟩ := Draft.start_tidy started
  have none : NoneCapture draft.constants := by
    obtain ⟨slots, rfl, _⟩ := Draft.declareAll_numbered started trivial
    intro identity inner member
    cases member
  obtain ⟨chained, count⟩ :=
    (lowerBlock_edits program (.refl ⟨draft, [], 0⟩) bodyLowered).chained
      ⟨tidy, noCaptures, none⟩
  rw [List.eq_nil_of_length_eq_zero count] at chained
  obtain ⟨loweredTidy, uncaptured, functions⟩ := chained
  have captures :
      (lowered.emitReturn program.position.debugLine).current.captures =
        [] := uncaptured
  refine ⟨.intro ?_ ?_ ?_ loweredTidy.heap loweredTidy.functions, ?_, ?_,
    functions⟩ <;>
    simp [Draft.finish, captures]

/-! ## Accesses -/

namespace Opcode

/-- Whether the operation reads or writes a slot. -/
def accessesSlot : Opcode → Bool
  | .loadLocal | .storeLocal | .loadHeap | .storeHeap => true
  | _ => false

/-- Whether the operation reads or writes through the box in a slot. -/
def goesThroughBox : Opcode → Bool
  | .loadHeap | .storeHeap => true
  | _ => false

end Opcode

/-- An emission is written as an access through a box exactly when its slot
holds a box. -/
theorem Emission.goesThroughBox_written
    {emission : Emission} {heap : List UInt8}
    (direct : emission.opcode.goesThroughBox = false)
    (access : (emission.written heap).accessesSlot) :
    (emission.written heap).goesThroughBox ↔ emission.byte ∈ heap := by
  unfold Emission.written at access ⊢
  by_cases held : emission.byte ∈ heap <;> cases opcode : emission.opcode <;>
    simp_all [Opcode.promoted?, Opcode.accessesSlot, Opcode.goesThroughBox]

/-- Accesses are emitted in their direct form. -/
theorem Template.LaidOut.direct {template : Template}
    {code : Code} {offset : Nat} {shape : Shape} {emission : Emission}
    (laidOut : template.LaidOut code)
    (here : code.At offset shape emission) :
    emission.opcode.goesThroughBox = false := by
  obtain ⟨leads | ⟨rfl, _⟩, _⟩ := laidOut.follow here
  · cases leads with
    | plain plain =>
        unfold Emission.isPlain at plain
        cases opcode : emission.opcode <;> simp_all [Opcode.goesThroughBox]
    | _ => rfl
  · rfl

/-! ## Compiled functions -/

/-- The functions of a template: the template itself and all that stand in
constant pools inside it. -/
inductive Template.Contains : Template → Template → Prop
  | itself (template : Template) : Contains template template
  | constant {template outer inner : Template} {identity : Nat}
      (within : Contains template outer)
      (member : .function identity inner ∈ outer.constants) :
        Contains template inner

theorem Template.Contains.sound {template inner : Template}
    (contains : template.Contains inner)
    (sound : template.Sound) (tidy : template.Tidy) :
    inner.Sound ∧ inner.Tidy := by
  induction contains with
  | itself => exact ⟨sound, tidy⟩
  | constant _ member within =>
      obtain ⟨outerSound, outerTidy⟩ := within
      cases outerSound with
      | intro code laidOut functions captures =>
          cases outerTidy with
          | intro _ _ _ _ tidyFunctions =>
              exact ⟨functions _ _ member, tidyFunctions _ _ member⟩

/-- Promotion is complete and exact. In every function of a compiled program a
slot is accessed through a box if and only if it is among the slots that hold
boxes. The slots that receive captured boxes are different ones behind the
parameters, and all of them hold boxes. A function captures different slots of
the function around it, and all of them hold boxes. The script and the functions
directly inside it capture nothing. -/
theorem promotion_is_complete_and_exact {program : Block}
    {script : Template}
    (compiled : program.compile = .ok script) :
    (∀ template, script.Contains template →
      (Instruction.walk template.code).fault = none ∧
      (∀ instruction ∈ (Instruction.walk template.code).instructions,
        instruction.opcode.accessesSlot →
          (instruction.opcode.goesThroughBox ↔
            instruction.byte ∈ template.heapSlots)) ∧
      template.capturesOuter.length = template.capturesInner.length ∧
      template.capturesInner.Nodup ∧
      (∀ slot ∈ template.capturesInner, template.arity < slot.toNat ∧
        slot.toNat < template.locals ∧ slot ∈ template.heapSlots) ∧
      ∀ identity inner, .function identity inner ∈ template.constants →
        inner.capturesOuter.Nodup ∧ ∀ slot ∈ inner.capturesOuter,
          slot ∈ template.heapSlots) ∧
    script.capturesOuter = [] ∧ script.capturesInner = [] ∧
    ∀ identity inner, .function identity inner ∈ script.constants →
      inner.capturesOuter = [] ∧ inner.capturesInner = [] := by
  obtain ⟨scriptSound, _⟩ := Block.compileWith_sound compiled
  obtain ⟨scriptTidy, outerNone, innerNone, functionsNone⟩ :=
    Block.compileWith_tidy compiled
  refine ⟨fun template contains => ?_, outerNone, innerNone, functionsNone⟩
  obtain ⟨sound, tidy⟩ := contains.sound scriptSound scriptTidy
  cases sound with
  | intro code laidOut functions captures =>
      cases tidy with
      | intro distinct beyond _ _ tidyFunctions =>
          refine ⟨by rw [laidOut.walk_eq], ?_, laidOut.paired, distinct, ?_, ?_⟩
          · intro instruction member access
            obtain ⟨shape, emission, here, placedEq⟩ :=
              laidOut.at_of_mem_walk member
            rw [placedEq] at access ⊢
            exact Emission.goesThroughBox_written (laidOut.direct here) access
          · intro slot member
            have boxed := laidOut.captured slot member
            exact ⟨beyond slot member, laidOut.heap slot boxed, boxed⟩
          · intro identity inner member
            cases tidyFunctions identity inner member with
            | intro _ _ outerDistinct _ _ =>
                exact ⟨outerDistinct, captures identity inner member⟩

/-- Whether a source text compiles and its first function passes a check. -/
def firstFunctionIs (source : String) (check : Template → Bool) : Bool :=
  match parseSource source with
  | .error _ => false
  | .ok program =>
      match program.compile with
      | .error _ => false
      | .ok script =>
          match script.constants with
          | .function _ inner :: _ => check inner
          | _ => false

theorem exists_firstFunction {source : String}
    {check : Template → Bool}
    (found : firstFunctionIs source check) :
    ∃ (program : Block) (script inner : Template),
      program.compile = .ok script ∧
      script.Contains inner ∧ check inner := by
  unfold firstFunctionIs at found
  split at found
  · cases found
  next program _ =>
    split at found
    · cases found
    next script compiled =>
      split at found
      next identity inner others constants =>
        exact ⟨program, script, inner, compiled, .constant (.itself script)
          (constants ▸ List.mem_cons_self), found⟩
      next => cases found

/-- A function whose parameter and local are captured two levels deeper, one of
them after it was written: both are accessed through boxes before and after the
capture, and its first slot is not. -/
theorem promotion_in_nested_functions :
    ∃ (program : Block) (script outer : Template),
      program.compile = .ok script ∧
      script.Contains outer ∧
      outer.heapSlots = [1, 2] ∧
      ((Instruction.walk outer.code).instructions.filter
        (·.opcode.accessesSlot)).map
          (fun instruction => (instruction.opcode, instruction.byte)) =
        [(.loadHeap, 1), (.storeHeap, 2), (.storeLocal, 3), (.loadHeap, 2),
          (.storeHeap, 2), (.loadLocal, 3)] ∧
      ∀ instruction ∈ (Instruction.walk outer.code).instructions,
        instruction.opcode.accessesSlot →
          (instruction.opcode.goesThroughBox ↔
            instruction.byte ∈ outer.heapSlots) := by
  obtain ⟨program, script, outer, compiled, contains, checked⟩ :=
    @exists_firstFunction
    "fn f(a) { x = a; fn g() { fn h() { x = x + a; x }; h }; x = x; g }"
    (fun outer => outer.heapSlots == [1, 2] &&
      ((Instruction.walk outer.code).instructions.filter
        (·.opcode.accessesSlot)).map
          (fun instruction => (instruction.opcode, instruction.byte)) ==
        [(.loadHeap, 1), (.storeHeap, 2), (.storeLocal, 3), (.loadHeap, 2),
          (.storeHeap, 2), (.loadLocal, 3)]) (by decide +kernel)
  simp only [Bool.and_eq_true, beq_iff_eq] at checked
  exact ⟨program, script, outer, compiled, contains, checked.1, checked.2,
    ((promotion_is_complete_and_exact compiled).1 outer contains).2.1⟩

end EffectScript
