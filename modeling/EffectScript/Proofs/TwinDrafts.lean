import EffectScript.Proofs.Promotion
import EffectScript.Proofs.TwinValues

/-!
# Twin drafts

Two drafts are *twins* when they hold the two ways to write one list of items
and agree in everything else: slots, boxes, captures, names, and constants up to
twin functions. Every operation on drafts that is done to both keeps them twins
and gives the same indices and slots. When the result of a statement is thrown
away, the one draft pops it and the other one takes back the push of it; then
the drafts hold an item that is dropped.

A *page* says which items two drafts hold and how many slots they have at least.
The count is what an access needs that is found now and written later.
-/

namespace EffectScript

/-! ## Drafts -/

/-- Constants that are one scalar, or twin functions with one identity. -/
def Value.ConstantTwin (first second : Value) : Prop :=
  (first.isScalar ∧ second = first) ∨
    ∃ identity inner other, first = .function identity inner ∧
      second = .function identity other ∧
      inner.Twin other

/-- What is known about two drafts: the items that they hold and how many slots
they have at least. -/
structure Page where
  items : List Item
  slots : Nat

/-- Drafts that hold the two ways to write the items of a page and agree in
everything else. -/
structure Draft.Twin (page : Page) (first second : Draft) : Prop where
  name : second.name = first.name
  arity : second.arity = first.arity
  comments : second.debug.comments = first.debug.comments
  names : second.names = first.names
  nameIndices : second.nameIndices = first.nameIndices
  slotNames : second.debug.slotNames = first.debug.slotNames
  heapSlots : second.heapSlots = first.heapSlots
  captures : second.captures = first.captures
  constants : List.Forall₂ Value.ConstantTwin first.constants second.constants
  kept : first.Holds (written .kept page.items)
  elided : second.Holds (written .elided page.items)
  keptLines : first.debug.lines.toList = lineTable .kept page.items
  elidedLines : second.debug.lines.toList = lineTable .elided page.items
  enough : page.slots ≤ first.slots.length
  below : ∀ entry ∈ first.slots, entry.2.toNat < first.slots.length

namespace Draft

theorem Twin.slots {page : Page} {first second : Draft}
    (twin : Twin page first second) :
    second.slots = first.slots := by
  rw [Draft.slots, Draft.slots, twin.slotNames]

variable {page : Page} {items before after : List Item} {slots : Nat}
    {first second later other : Draft} {opcode : Opcode}
    {kept elided operands : List UInt8} {line : UInt32} {name : String}

/-- A name that is known has a slot of the draft. -/
theorem Twin.slot_lt
    (twin : Twin page first second)
    {slot : UInt8}
    (found : first.slot? name = some slot) :
    slot.toNat < first.slots.length := by
  obtain ⟨front, back, slotsEq, _⟩ := List.lookup_eq_some_iff.1 found
  exact twin.below (name, slot) (by simp [slotsEq])

theorem Twin.slot?_eq (twin : Twin page first second) (name : String) :
    second.slot? name = first.slot? name := by
  rw [slot?, slot?, twin.slots]

theorem Twin.isHeap_eq (twin : Twin page first second) (slot : UInt8) :
    second.isHeap slot = first.isHeap slot := by
  rw [isHeap, isHeap, twin.heapSlots]

theorem Twin.keptSize (twin : Twin page first second) :
    first.code.size = extent .kept page.items :=
  twin.kept.size

theorem Twin.elidedSize (twin : Twin page first second) :
    second.code.size = extent .elided page.items :=
  twin.elided.size

/-! ### Writing -/

/-- Drafts that differ at most in their code, the lines of its bytes and what is
remembered about it. -/
structure Rewrites (draft later : Draft) : Prop extends draft.Alike later where
  comments : later.debug.comments = draft.debug.comments

theorem rewrites_emit
    (draft : Draft) (opcode : Opcode) (operands : List UInt8) (line : UInt32) :
    draft.Rewrites (draft.emit opcode operands line) :=
  ⟨draft.alike_emit opcode operands line, rfl⟩

theorem rewrites_patchTo {draft later : Draft}
    {origin : Nat} {line : UInt32}
    (patched : draft.patchTo origin line = .ok later) :
    draft.Rewrites later ∧ later.debug.lines = draft.debug.lines := by
  have alike := alike_patchTo patched
  simp only [Draft.patchTo] at patched
  split at patched
  · cases patched
    exact ⟨⟨alike, rfl⟩, rfl⟩
  · cases patched

/-- Drafts are twins again when other items are written to both. -/
theorem Twin.rewrite
    (twin : Twin ⟨before, slots⟩ first second)
    (firstAlike : first.Rewrites later)
    (secondAlike : second.Rewrites other)
    (kept : later.Holds (written .kept after))
    (elided : other.Holds (written .elided after))
    (keptLines : later.debug.lines.toList = lineTable .kept after)
    (elidedLines : other.debug.lines.toList = lineTable .elided after) :
    Twin ⟨after, slots⟩ later other where
  name := by rw [firstAlike.name, secondAlike.name, twin.name]
  arity := by rw [firstAlike.arity, secondAlike.arity, twin.arity]
  comments := by rw [firstAlike.comments, secondAlike.comments, twin.comments]
  names := by rw [firstAlike.names, secondAlike.names, twin.names]
  nameIndices := by
    rw [firstAlike.nameIndices, secondAlike.nameIndices, twin.nameIndices]
  slotNames := by
    rw [firstAlike.slotNames, secondAlike.slotNames, twin.slotNames]
  heapSlots := by
    rw [firstAlike.heapSlots, secondAlike.heapSlots, twin.heapSlots]
  captures := by rw [firstAlike.captures, secondAlike.captures, twin.captures]
  constants := by
    rw [firstAlike.constants, secondAlike.constants]
    exact twin.constants
  kept := kept
  elided := elided
  keptLines := keptLines
  elidedLines := elidedLines
  enough := by
    rw [firstAlike.slots]
    exact twin.enough
  below := by
    rw [firstAlike.slots]
    exact twin.below

/-- Both drafts get one more operation. -/
theorem Twin.emitShared
    (twin : Twin ⟨items, slots⟩ first second)
    (opcode : Opcode)
    {kept elided : List UInt8}
    (keptComplete : kept.length = opcode.operandCount)
    (elidedComplete : elided.length = opcode.operandCount)
    (inRange : opcode.promoted?.isSome → kept = elided ∧
      (⟨opcode, kept⟩ : Emission).byte.toNat < first.slots.length)
    (line : UInt32) :
    Twin ⟨items ++ [.shared opcode kept elided line], slots⟩
      (first.emit ((⟨opcode, kept⟩ : Emission).written first.heapSlots) kept
        line)
      (second.emit ((⟨opcode, elided⟩ : Emission).written second.heapSlots)
        elided line) := by
  have keptHolds := twin.kept.emit ⟨opcode, kept⟩ keptComplete
    (fun access => (inRange access).2) line
  have elidedHolds := twin.elided.emit ⟨opcode, elided⟩ elidedComplete (by
    intro access
    obtain ⟨rfl, below⟩ := inRange access
    rw [twin.slots]
    exact below) line
  refine twin.rewrite (rewrites_emit _ _ _ _)
    (rewrites_emit _ _ _ _) ?_ ?_ ?_ ?_
  · simpa [Item.emissions] using keptHolds
  · simpa [Item.emissions] using elidedHolds
  · simp [Draft.emit, twin.keptLines, lineTable, Item.lines]
  · simp [Draft.emit, twin.elidedLines, lineTable, Item.lines]

/-- Both drafts get one more operation that accesses no slot. -/
theorem Twin.emitApart
    (twin : Twin ⟨items, slots⟩ first second)
    {opcode : Opcode} {kept elided : List UInt8}
    (keptComplete : kept.length = opcode.operandCount)
    (elidedComplete : elided.length = opcode.operandCount)
    (noAccess : opcode.promoted? = none)
    (line : UInt32) :
    Twin ⟨items ++ [.shared opcode kept elided line], slots⟩
      (first.emit opcode kept line) (second.emit opcode elided line) := by
  have plain (operands heap : List UInt8) :
      (⟨opcode, operands⟩ : Emission).written heap = opcode :=
    Emission.written_of_promoted?_eq_none noAccess heap
  have emitted := twin.emitShared opcode keptComplete elidedComplete
    (by simp [noAccess]) line
  rwa [plain, plain] at emitted

theorem Twin.emit
    (twin : Twin ⟨items, slots⟩ first second)
    (complete : operands.length = opcode.operandCount)
    (noAccess : opcode.promoted? = none)
    (line : UInt32) :
    Twin ⟨items ++ [.plain opcode operands line], slots⟩
      (first.emit opcode operands line) (second.emit opcode operands line) :=
  twin.emitApart complete complete noAccess line

/-- Both drafts get one more access to a slot. -/
theorem Twin.access
    (twin : Twin ⟨items, slots⟩ first second)
    {slot : UInt8} {direct boxed : Opcode}
    (promotes : direct.promoted? = some boxed)
    (single : direct.operandCount = 1)
    (inRange : slot.toNat < first.slots.length)
    (line : UInt32) :
    Twin ⟨items ++ [.plain direct [slot] line], slots⟩
      (first.emit (if first.isHeap slot then boxed else direct) [slot] line)
      (second.emit (if second.isHeap slot then boxed else direct)
        [slot] line) := by
  have complete : [slot].length = direct.operandCount := single.symm
  rw [← first.written_access slot promotes,
    ← second.written_access slot promotes]
  exact twin.emitShared direct complete complete (fun _ => ⟨rfl, inRange⟩) line

/-- What the drafts remember about trailing instructions makes no difference. -/
theorem Twin.remember
    (twin : Twin page first second)
    (removable another : Option Nat) :
    Twin page { first with removable := removable }
      { second with removable := another } :=
  twin.rewrite ⟨⟨rfl, rfl, rfl, rfl, rfl, rfl, rfl, rfl⟩, rfl⟩
    ⟨⟨rfl, rfl, rfl, rfl, rfl, rfl, rfl, rfl⟩, rfl⟩
    ⟨twin.kept.bytes, twin.kept.complete, twin.kept.inRange⟩
    ⟨twin.elided.bytes, twin.elided.complete, twin.elided.inRange⟩
      twin.keptLines twin.elidedLines

/-- The one draft pops a result where the other one takes back the push of
it. -/
theorem Twin.drop {pushLine : UInt32}
    (twin : Twin ⟨items ++ [.plain .pushNil [] pushLine], slots⟩ first second)
    (popLine : UInt32) :
    Twin ⟨items ++ [.dropped pushLine popLine], slots⟩
      (first.emit .pop [] popLine) { second with
        code := second.code.pop
        debug := { second.debug with lines := second.debug.lines.pop }
        removable := none } := by
  have keptHolds : (first.emit .pop [] popLine).Holds
      (written .kept (items ++ [.plain .pushNil [] pushLine]) ++
        [⟨.pop, []⟩]) :=
    twin.kept.emit_plain rfl rfl popLine
  have elidedHolds := twin.elided
  have elidedLines := twin.elidedLines
  rw [written_append] at elidedHolds
  rw [lineTable_append] at elidedLines
  refine twin.rewrite (rewrites_emit _ _ _ _)
    ⟨⟨rfl, rfl, rfl, rfl, rfl, rfl, rfl, rfl⟩, rfl⟩ ?_ ?_ ?_ ?_
  · simpa [Item.emissions, Item.plain] using keptHolds
  · rw [written_append, show written .elided [.dropped pushLine popLine] = []
      from rfl, List.append_nil]
    exact elidedHolds.pop rfl rfl rfl rfl
  · simp [Draft.emit, twin.keptLines, lineTable, Item.lines, Item.plain]
  · simp [elidedLines, lineTable, Item.lines, Item.plain]

/-- The lines of the last bytes agree behind a shared item. -/
theorem Twin.lastLine_eq {item : Item}
    (twin : Twin ⟨items ++ [item], slots⟩ first second)
    (shared : item.isShared) (line : UInt32) :
    second.lastLine line = first.lastLine line := by
  cases item with
  | dropped pushLine popLine => cases shared
  | shared opcode kept elided itemLine =>
      have last {table : Array UInt32} {front : List UInt32} {count : Nat}
          (parts : table.toList = front ++ List.replicate
            (count + 1) itemLine) :
          table.back?.getD line = itemLine := by
        rw [← Array.getLast?_toList, parts]
        simp [List.getLast?_append, List.getLast?_replicate]
      have keptLines := twin.keptLines
      have elidedLines := twin.elidedLines
      simp only [lineTable, List.flatMap_append, List.flatMap_cons,
        List.flatMap_nil, List.append_nil, Item.lines] at keptLines elidedLines
      exact (last elidedLines).trans (last keptLines).symm

/-! ### Patching -/

/-- Both drafts fill in the distance to the end of their code. -/
theorem Twin.patchTo {front : List UInt8}
    {itemLine : UInt32} {origin another : Nat}
    (twin :
      Twin ⟨before ++ .plain opcode (front ++ [255, 255]) itemLine :: after,
        slots⟩ first second)
    (noAccess : opcode.promoted? = none)
    (originEq : origin = extent .kept before + front.length + 3)
    (anotherEq : another = extent .elided before + front.length + 3)
    (patched : first.patchTo origin line = .ok later)
    (otherPatched : second.patchTo another line = .ok other) :
    Twin
      ⟨before ++ .shared opcode
        (front ++ Instruction.shortBytes (extent .kept after))
        (front ++ Instruction.shortBytes (extent .elided after)) itemLine ::
          after, slots⟩ later other ∧
      (∀ nils, extent nils after ≤ 65535) ∧ other.removable = none := by
  have keptHolds := twin.kept
  have elidedHolds := twin.elided
  rw [written_append, written_cons] at keptHolds elidedHolds
  obtain ⟨keptPatched, keptSmall, _⟩ :=
    keptHolds.patchTo noAccess originEq patched
  obtain ⟨elidedPatched, elidedSmall, fixed⟩ :=
    elidedHolds.patchTo noAccess anotherEq otherPatched
  obtain ⟨rewrites, linesEq⟩ := rewrites_patchTo patched
  obtain ⟨otherRewrites, otherLinesEq⟩ := rewrites_patchTo otherPatched
  have keptLines := twin.keptLines
  have elidedLines := twin.elidedLines
  refine ⟨twin.rewrite rewrites otherRewrites ?_ ?_ ?_ ?_,
    fun nils => ?_, fixed⟩
  · rw [written_append, written_cons]
    exact keptPatched
  · rw [written_append, written_cons]
    exact elidedPatched
  · rw [linesEq, keptLines]
    simp [lineTable, Item.lines, Item.plain, Instruction.shortBytes]
  · rw [otherLinesEq, elidedLines]
    simp [lineTable, Item.lines, Item.plain, Instruction.shortBytes]
  · cases nils with
    | kept => exact keptSmall
    | elided => exact elidedSmall

/-! ### Slots -/

theorem Twin.withSlots
    (twin : Twin page first second)
    (fewer : slots ≤ first.slots.length) :
    Twin ⟨page.items, slots⟩ first second :=
  { twin with enough := fewer }

/-- Both drafts give a name the same slot. -/
theorem Twin.declare
    (twin : Twin page first second)
    {slot otherSlot : UInt8}
    (declared : first.declare name line = .ok (slot, later))
    (otherDeclared : second.declare name line = .ok (otherSlot, other)) :
    otherSlot = slot ∧ slot.toNat < later.slots.length ∧
    Twin page later other := by
  obtain ⟨slotEq, rfl⟩ := declare_eq declared
  obtain ⟨otherSlotEq, rfl⟩ := declare_eq otherDeclared
  have same : otherSlot = slot :=
    UInt8.toNat_inj.1 (by rw [slotEq, otherSlotEq, twin.slots])
  subst same
  have longer (emissions : List Emission) {draft : Draft}
      (holds : draft.Holds emissions) :
      (draft.addSlot name otherSlot).Holds emissions :=
    ⟨holds.bytes, holds.complete, fun emission member access =>
      Nat.lt_of_lt_of_le (holds.inRange emission member access)
        (draft.length_slots_addSlot name otherSlot ▸ Nat.le_succ _)⟩
  have more := first.length_slots_addSlot name otherSlot
  refine ⟨rfl, more ▸ slotEq ▸ Nat.lt_succ_self _, ?_⟩
  have declaredTwin :
      Twin page (first.addSlot name otherSlot)
        (second.addSlot name otherSlot) := { twin with
      slotNames := by
        simp only [addSlot, DebugTables.addSlotName, twin.slotNames]
      kept := longer _ twin.kept
      elided := longer _ twin.elided
      enough := more ▸ Nat.le_succ_of_le twin.enough
      below := by
        intro entry member
        rw [slots_addSlot] at member
        rw [more]
        rcases List.mem_cons.1 member with rfl | old
        · exact slotEq ▸ Nat.lt_succ_self _
        · exact Nat.lt_succ_of_lt (twin.below entry old) }
  exact declaredTwin

/-- Both drafts give a captured name the same slot. -/
theorem Twin.declareCapture
    (twin : Twin page first second)
    {outerSlot slot otherSlot : UInt8}
    (declared : first.declareCapture name outerSlot line = .ok (slot, later))
    (otherDeclared : second.declareCapture name outerSlot line = .ok
      (otherSlot, other)) :
    otherSlot = slot ∧ slot.toNat < later.slots.length ∧
    Twin page later other := by
  obtain ⟨⟨newSlot, plain⟩, plainDeclared, result⟩ :=
    Outcome.bind_eq_ok.1 declared
  obtain ⟨⟨otherNewSlot, otherPlain⟩, otherPlainDeclared, otherResult⟩ :=
    Outcome.bind_eq_ok.1 otherDeclared
  obtain ⟨same, inRange, plainTwin⟩ :=
    twin.declare plainDeclared otherPlainDeclared
  cases result
  cases otherResult
  cases same
  refine ⟨rfl, inRange, ?_⟩
  have captured : Twin page
      { plain with
        heapSlots := insertSlot slot plain.heapSlots
        captures := plain.captures ++ [(outerSlot, slot)] }
      { otherPlain with
        heapSlots := insertSlot slot otherPlain.heapSlots
        captures := otherPlain.captures ++ [(outerSlot, slot)] } :=
    { plainTwin with
      heapSlots := by simp [plainTwin.heapSlots]
      captures := by simp [plainTwin.captures]
      kept := twin.kept.declareCapture declared
      elided := twin.elided.declareCapture otherDeclared }
  exact captured

/-- Both drafts move a slot into a box. -/
theorem Twin.promote (twin : Twin page first second) (slot : UInt8) :
    Twin page (first.promote slot) (second.promote slot) := by
  have keptHolds := twin.kept.promote slot
  have elidedHolds := twin.elided.promote slot
  unfold Draft.promote at keptHolds elidedHolds ⊢
  rw [twin.isHeap_eq] at elidedHolds ⊢
  by_cases boxed : first.isHeap slot
  · rw [if_pos boxed, if_pos boxed]
    exact twin
  · rw [if_neg boxed] at keptHolds elidedHolds
    rw [if_neg boxed, if_neg boxed]
    have promoted : Twin page
        { first with
          heapSlots := insertSlot slot first.heapSlots
          code := (Instruction.walk first.code).instructions.foldl
            (promoteInstruction slot) first.code }
        { second with
          heapSlots := insertSlot slot second.heapSlots
          code := (Instruction.walk second.code).instructions.foldl
            (promoteInstruction slot) second.code } :=
      { twin with
        heapSlots := by simp [twin.heapSlots]
        kept := keptHolds
        elided := elidedHolds }
    exact promoted

/-! ### Pools -/

/-- Both drafts give a name the same index. -/
theorem Twin.nameIndex
    (twin : Twin page first second)
    {index otherIndex : UInt8}
    (named : first.nameIndex name line = .ok (index, later))
    (otherNamed : second.nameIndex name line = .ok (otherIndex, other)) :
    otherIndex = index ∧ Twin page later other := by
  simp only [Draft.nameIndex, twin.names, twin.nameIndices] at named otherNamed
  split at named
  next position found =>
    rw [found] at otherNamed
    cases named
    cases otherNamed
    exact ⟨rfl, twin⟩
  next missing =>
    rw [missing] at otherNamed
    split at named
    next room =>
      rw [if_pos room] at otherNamed
      cases named
      cases otherNamed
      refine ⟨rfl, ?_⟩
      have namedTwin : Twin page
          { first with
            names := first.names ++ [name]
            nameIndices := first.nameIndices.insert name
              (UInt8.ofNat first.names.length) }
          { second with
            names := first.names ++ [name]
            nameIndices := first.nameIndices.insert name
              (UInt8.ofNat first.names.length) } := { twin with
          names := rfl
          nameIndices := rfl
          kept := ⟨twin.kept.bytes, twin.kept.complete, twin.kept.inRange⟩
          elided :=
            ⟨twin.elided.bytes, twin.elided.complete, twin.elided.inRange⟩ }
      exact namedTwin
    next => cases named

/-- Related lists have their first matches at the same index. -/
theorem findIdx?_eq_of_forall₂ {α β : Type}
    {related : α → β → Prop} {left : List α} {right : List β} {test : α → Bool}
    {otherTest : β → Bool}
    (all : List.Forall₂ related left right)
    (agree : ∀ entry partner, related entry partner →
      otherTest partner = test entry) :
    right.findIdx? otherTest = left.findIdx? test := by
  induction all with
  | nil => rfl
  | cons head _ inner =>
      rw [List.findIdx?_cons, List.findIdx?_cons, agree _ _ head, inner]

/-- Both drafts give a constant the same index. -/
theorem Twin.addConstant
    (twin : Twin page first second)
    {value partner : Value}
    (twins : value.ConstantTwin partner)
    {index otherIndex : UInt8}
    (pooled : first.addConstant value line = .ok (index, later))
    (otherPooled : second.addConstant partner line = .ok (otherIndex, other)) :
    otherIndex = index ∧ Twin page later other := by
  have matches_ : (second.constants.findIdx? fun held =>
        partner.isScalar && held.isScalar && held.eq partner) =
      first.constants.findIdx? fun held => value.isScalar && held.isScalar &&
        held.eq value := by
    refine findIdx?_eq_of_forall₂ twin.constants fun held there pair => ?_
    rcases twins with ⟨_, rfl⟩ | ⟨_, _, _, rfl, rfl, _⟩
    · rcases pair with ⟨_, rfl⟩ | ⟨_, _, _, rfl, rfl, _⟩
      · rfl
      · simp [Value.isScalar]
    · simp [Value.isScalar]
  simp only [Draft.addConstant, matches_, ← twin.constants.length_eq]
    at pooled otherPooled
  split at pooled
  next position found =>
    rw [found] at otherPooled
    cases pooled
    cases otherPooled
    exact ⟨rfl, twin⟩
  next missing =>
    rw [missing] at otherPooled
    split at pooled
    next room =>
      rw [if_pos room] at otherPooled
      cases pooled
      cases otherPooled
      refine ⟨rfl, ?_⟩
      have pooledTwin :
          Twin page { first with constants := first.constants ++ [value] }
          { second with constants := second.constants ++ [partner] } :=
        { twin with
          constants := List.rel_append twin.constants (.cons twins .nil)
          kept := ⟨twin.kept.bytes, twin.kept.complete, twin.kept.inRange⟩
          elided :=
            ⟨twin.elided.bytes, twin.elided.complete, twin.elided.inRange⟩ }
      exact pooledTwin
    next => cases pooled

/-! ### Beginning and end -/

/-- A draft that has just been started is its own twin. -/
theorem start_twin {parameters : List String}
    (started : Draft.start name parameters line = .ok first) :
    Twin ⟨[], 0⟩ first first := by
  obtain ⟨names, rfl, _, _, below⟩ :=
    declareAll_spec started (Nat.zero_le _) (by simp [Draft.slots])
  exact ⟨rfl, rfl, rfl, rfl, rfl, rfl, rfl, rfl, .nil, ⟨rfl, by simp, by simp⟩,
    ⟨rfl, by simp, by simp⟩, rfl, rfl, Nat.zero_le _, below⟩

/-- Both drafts get a comment with the name of the function before any code. -/
theorem Twin.addComment (twin : Twin ⟨[], slots⟩ first second) (line : UInt32) :
    Twin ⟨[.plain .comment [] line], slots⟩ (first.addComment first.name line)
      (second.addComment second.name line) := by
  have emitted := twin.emit
    (show ([] : List UInt8).length = Opcode.comment.operandCount from rfl) rfl
    line
  have commented : Twin ⟨[.plain .comment [] line], slots⟩
      (first.addComment first.name line) (second.addComment second.name line) :=
    { emitted with
      comments := by
        simp only [Draft.addComment, DebugTables.addComment, twin.keptSize,
          twin.elidedSize, extent_nil, twin.name, emitted.comments]
      kept := ⟨emitted.kept.bytes, emitted.kept.complete, emitted.kept.inRange⟩
      elided := ⟨emitted.elided.bytes, emitted.elided.complete,
        emitted.elided.inRange⟩ }
  exact commented

/-- Drafts that hold closed items are finished to twin functions. -/
theorem Twin.finish
    (twin : Twin ⟨items, slots⟩ first second)
    (closed : Closed items) :
    first.finish.Twin second.finish := by
  refine .written ⟨twin.name, twin.arity, ?_, twin.names, ?_, twin.comments, ?_,
    ?_, twin.heapSlots⟩
    ⟨twin.heapSlots, twin.kept.bytes, twin.elided.bytes, twin.kept.complete,
      twin.elided.complete, twin.keptLines, twin.elidedLines, closed⟩ ?_ ?_
  · simp only [Draft.finish, twin.slots]
  · exact twin.slotNames
  · simp only [Draft.finish, twin.captures]
  · simp only [Draft.finish, twin.captures]
  · refine twin.constants.imp fun value partner twins => ?_
    rcases twins with same | ⟨identity, inner, another, valueEq, partnerEq, _⟩
    · exact .inl same
    · exact .inr ⟨identity, inner, another, valueEq, partnerEq⟩
  · intro index identity another inner partner held there
    rcases rel_cases (forall₂_getElem? twin.constants index) with
      ⟨missing, _⟩ | ⟨value, other, found, otherFound, twins⟩
    · cases missing.symm.trans held
    · cases found.symm.trans held
      cases otherFound.symm.trans there
      rcases twins with ⟨scalar, _⟩ | ⟨_, _, _, ⟨⟩, ⟨⟩, templates⟩
      · cases scalar
      · exact templates

end Draft

end EffectScript
