import EffectScript.Proofs.Scoping

/-!
# What sketches tell about compiled functions

A compiled function has one instruction for each event of its sketch, in the
same order. Its line table has one line for each instruction, its constants are
numbers, texts and functions, and its pools have room for operands of one byte.

All of this is said of instructions, but it is shown for emissions: code is
rewritten while other functions are being written, and emissions stay as they
are.
-/

namespace EffectScript

/-! ## Line tables -/

/-- The table has a line for every byte of the emissions, and one line for all
bytes of an emission. -/
def Lined : List Emission → List UInt32 → Prop
  | [], lines => lines = []
  | emission :: emissions, lines =>
      ∃ line rest, lines = List.replicate emission.size line ++ rest ∧
        Lined emissions rest

namespace Lined

variable {emissions others : List Emission} {emission : Emission}
    {lines : List UInt32}

theorem length (lined : Lined emissions lines) :
    lines.length = totalSize emissions := by
  induction emissions generalizing lines with
  | nil =>
      cases lined
      rfl
  | cons emission emissions inner =>
      obtain ⟨line, rest, rfl, restLined⟩ := lined
      rw [List.length_append, List.length_replicate, inner restLined,
        totalSize_cons]

theorem append_iff : Lined (emissions ++ others) lines ↔
    ∃ first second, lines = first ++ second ∧ Lined emissions first ∧
      Lined others second := by
  induction emissions generalizing lines with
  | nil => simp [Lined]
  | cons emission emissions inner =>
      constructor
      · rintro ⟨line, rest, rfl, restLined⟩
        obtain ⟨first, second, rfl, firstLined, secondLined⟩ :=
          inner.1 restLined
        exact ⟨List.replicate emission.size line ++ first, second, by simp,
          ⟨line, first, rfl, firstLined⟩, secondLined⟩
      · rintro ⟨_, second, rfl, ⟨line, first, rfl, firstLined⟩, secondLined⟩
        exact ⟨line, first ++ second, by
          simp, inner.2 ⟨first, second, rfl, firstLined, secondLined⟩⟩

/-- Appending an emission appends its lines. -/
theorem emit
    (lined : Lined emissions lines)
    (emission : Emission) (line : UInt32) :
    Lined (emissions ++ [emission])
      (lines ++ List.replicate emission.size line) :=
  append_iff.2 ⟨lines, _, rfl, lined, line, [], by simp, rfl⟩

/-- Dropping an emission of one byte drops its line. -/
theorem pop
    (lined : Lined (emissions ++ [emission]) lines)
    (single : emission.operands = []) :
    Lined emissions lines.dropLast := by
  obtain ⟨first, _, rfl, firstLined, line, rest, rfl, restEq⟩ :=
    append_iff.1 lined
  rw [show rest = [] from restEq]
  simpa [Emission.size, single] using firstLined

/-- Only the sizes of the emissions matter. -/
theorem congr
    (lined : Lined emissions lines)
    (sizes : others.map Emission.size = emissions.map Emission.size) :
    Lined others lines := by
  induction emissions generalizing others lines with
  | nil =>
      cases List.map_eq_nil_iff.1 sizes
      exact lined
  | cons emission emissions inner =>
      cases others with
      | nil => cases sizes
      | cons other others =>
          simp only [List.map_cons, List.cons.injEq] at sizes
          obtain ⟨line, rest, rfl, restLined⟩ := lined
          exact ⟨line, rest, by rw [sizes.1], inner restLined sizes.2⟩

/-- All bytes of an emission have one line. -/
theorem uniform (lined : Lined (emissions ++ emission :: others) lines) :
    ∃ line, ∀ index < emission.size, lines[totalSize emissions + index]? =
      some line := by
  obtain ⟨first, _, rfl, firstLined, line, rest, rfl, _⟩ := append_iff.1 lined
  refine ⟨line, fun index less => ?_⟩
  rw [← firstLined.length, List.getElem?_append_right (Nat.le_add_right _ _),
    Nat.add_sub_cancel_left, List.getElem?_append_left (by simpa using less)]
  simp [less]

end Lined

/-! ## What a finished function is like -/

/-- Whether the compiler makes constants of such values. -/
def Value.isPooled : Value → Bool
  | .int _ | .str _ | .function _ _ => true
  | _ => false

/-- The operation is what becomes of the event. Only the script may mention the
name of the script, which no source text can. -/
def Event.Appears
    (chain : List Registry) (names : List String) (opcode : Opcode)
    (byte : UInt8) (event : Event) : Prop :=
  event.Becomes chain names opcode byte ∨
    chain.length = 1 ∧ event.name? = some scriptName ∧ opcode.accessesSlot

theorem Event.Appears.mono {chain later : List Registry}
    {names more : List String} {opcode : Opcode} {byte : UInt8} {event : Event}
    (appears : event.Appears chain names opcode byte)
    (precedes : ChainPrecedes chain later)
    (extends_ : names <+: more) :
    event.Appears later more opcode byte := by
  rcases appears with becomes | ⟨outermost, named, access⟩
  · exact .inl (becomes.mono precedes extends_)
  · exact .inr ⟨precedes.length_eq ▸ outermost, named, access⟩

/-- Numbered slots have the numbers from zero on. -/
theorem Numbered.range_eq {slots : List (String × UInt8)}
    (numbered : Numbered slots) :
    slots.reverse.map (·.2.toNat) = List.range slots.length := by
  induction slots with
  | nil => rfl
  | cons newest older inner =>
      obtain ⟨numberEq, olderNumbered⟩ := numbered
      rw [List.reverse_cons, List.map_append, inner olderNumbered,
        List.length_cons, List.range_succ]
      simp [numberEq]

/-- What lowering makes of a function. -/
structure Sketch.Describes
    (enclosing : List Registry)
    (sketch : Sketch) (template : Template) : Prop where
  events : List.Forall₂
    (fun event instruction => event.Appears (template.registry :: enclosing)
      template.names
      instruction.opcode instruction.byte) sketch.events
        template.eventInstructions
  numbered : template.debug.slotNames.map (·.2.toNat) =
    List.range template.locals
  beginning : sketch.name :: sketch.parameters <+:
    template.debug.slotNames.map (·.1)
  constants : ∀ value ∈ template.constants, value.isPooled
  constantsRoom : template.constants.length ≤ 256
  namesRoom : template.names.length ≤ 256
  localsRoom : template.locals ≤ 256
  lines : template.debug.lines.size = template.code.size
  uniform : ∀ instruction ∈
    (Instruction.walk template.code).instructions, ∃ line,
    ∀ index < instruction.opcode.size,
      template.debug.lines[instruction.offset + index]? = some line

theorem Sketch.Describes.mono {chain later : List Registry}
    {sketch : Sketch} {template : Template}
    (describes : sketch.Describes chain template)
    (precedes : ChainPrecedes chain later) :
    sketch.Describes later template :=
  { describes with
    events := describes.events.imp fun _ _ appears =>
      appears.mono (.cons (.refl _) precedes) (List.prefix_refl _) }

/-- An event becomes an access to a slot or the access through a box that stands
for it. -/
theorem Event.Becomes.promoted {chain : List Registry}
    {names : List String} {direct boxed : Opcode} {byte : UInt8} {event : Event}
    (becomes : event.Becomes chain names direct byte)
    (promotes : direct.promoted? = some boxed) :
    event.Becomes chain names boxed byte := by
  cases direct <;> cases promotes <;> cases event with
  | reads name level | writes name level =>
      cases level <;> simp_all [Event.Becomes]
  | attempts clauses | repeats => simp [Event.Becomes] at becomes

/-- Boxing accesses makes no difference to events. -/
theorem Event.Appears.written {chain : List Registry}
    {names : List String} {emission : Emission} {event : Event}
    (appears : event.Appears chain names emission.opcode emission.byte)
    (heap : List UInt8) :
    event.Appears chain names (emission.written heap) emission.byte := by
  unfold Emission.written
  split
  next boxed promotes =>
    split
    · rcases appears with becomes | ⟨outermost, named, _⟩
      · exact .inl (becomes.promoted promotes)
      · refine .inr ⟨outermost, named, ?_⟩
        cases opcode : emission.opcode <;> rw [opcode]
          at promotes <;> cases promotes <;> rfl
    · exact appears
  next => exact appears

theorem Emission.marksEvent_written (heap : List UInt8) (emission : Emission) :
    (emission.written heap).marksEvent = emission.opcode.marksEvent := by
  rcases emission.written_cases heap
    with same | ⟨access, boxed⟩ | ⟨access, boxed⟩
  · rw [same]
  · rw [boxed, access]
    rfl
  · rw [boxed, access]
    rfl

/-- The instructions that emissions become mark the same events. -/
theorem forall₂_placed {chain : List Registry}
    {names : List String} {events : List Event} {emissions : List Emission}
    (heap : List UInt8) (offset : Nat)
    (appear : List.Forall₂
      (fun event emission => event.Appears chain names emission.opcode
        emission.byte) events (emissions.filter (·.opcode.marksEvent))) :
    List.Forall₂
      (fun event instruction => event.Appears chain names instruction.opcode
        instruction.byte) events
      ((placed heap offset emissions).filter (·.opcode.marksEvent)) := by
  induction emissions generalizing events offset with
  | nil =>
      cases appear
      exact .nil
  | cons emission others inner =>
      have same : (emission.placedAt heap offset).opcode.marksEvent =
          emission.opcode.marksEvent :=
        emission.marksEvent_written heap
      simp only [placed, List.filter_cons, same] at appear ⊢
      split at appear
      next marks =>
        rw [if_pos marks]
        cases appear with
        | cons head tail => exact .cons (head.written heap) (inner _ tail)
      next quiet =>
        rw [if_neg quiet]
        exact inner _ appear

end EffectScript
