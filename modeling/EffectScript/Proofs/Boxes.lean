import EffectScript.Proofs.Effects
import EffectScript.Proofs.Promotion

/-!
# Boxes in their places

Boxes stand in the boxed slots of frames and in the lists of closures, and
nowhere else. A machine is *placed* when that is so, when every box has a cell
in the store, and when the captured slots of every frame hold the boxes of the
closure that it runs.

Every operation of the machine keeps it placed. A frame that it opens gets boxes
of its own for the boxed slots that it does not capture; their cells are new, so
they are beyond all cells of the store before.
-/

namespace EffectScript

open Activation

/-! ## Values -/

/-- A value without boxes and templates in it, whose closures are all good. -/
inductive Value.Made (good : Closure → Prop) : Value → Prop
  | nil : Made good .nil
  | bool (truth : Bool) : Made good (.bool truth)
  | int (number : Int64) : Made good (.int number)
  | str (text : String) : Made good (.str text)
  | list {nodes : List (Node Value)}
      (nodesMade : ∀ node ∈ nodes, Made good node.value) :
      Made good (.list nodes)
  | map {identity : Nat} {entries : List (String × Value)}
      (entriesMade : ∀ entry ∈ entries, Made good entry.2) :
        Made good (.map identity entries)
  | closure {closure : Closure} (closureGood : good closure) :
      Made good (.closure closure)
  | exception (identity : Nat) (exception : Exception) :
      Made good (.exception identity exception)
  | builtin (builtin : Builtin) : Made good (.builtin builtin)

namespace Value.Made

variable {good better : Closure → Prop} {value : Value}

theorem stable (good : Closure → Prop) : Value.Stable (Value.Made good) where
  nil := .nil
  bool := .bool
  int := .int
  str := .str
  list := by
    refine ⟨fun made => ?_, .list⟩
    cases made with
    | list nodesMade => exact nodesMade
  map := by
    refine ⟨fun made => ?_, .map⟩
    cases made with
    | map entriesMade => exact entriesMade
  exception := .exception
  builtin := .builtin

theorem mono
    (made : value.Made good)
    (weaker : ∀ closure, good closure → better closure) :
    value.Made better := by
  induction made with
  | nil => exact .nil
  | bool truth => exact .bool truth
  | int number => exact .int number
  | str text => exact .str text
  | list _ inner => exact .list inner
  | map _ inner => exact .map inner
  | closure closureGood => exact .closure (weaker _ closureGood)
  | exception identity exception => exact .exception identity exception
  | builtin builtin => exact .builtin builtin

theorem closed {closure : Closure} (made : (Value.closure closure).Made good) :
    good closure := by
  cases made with
  | closure closureGood => exact closureGood

theorem not_box {cell : Nat} (made : (Value.box cell).Made good) : False := by
  cases made

end Value.Made

/-! ## Placed machines -/

/-- A closure of a compiled function whose boxes have cells in a store of the
given size. -/
structure Closure.Placed (size : Nat) (closure : Closure) : Prop where
  sound : closure.Sound
  tidy : closure.template.Tidy
  boxes : ∀ cell ∈ closure.boxes, cell < size

/-- No box stands in the value, and the boxes of its closures have cells. -/
abbrev Value.Placed (size : Nat) (value : Value) : Prop :=
  value.Made (Closure.Placed size)

/-- The boxes of a frame are in their places. -/
structure Frame.Placed (size : Nat) (frame : Frame) : Prop where
  closure : frame.closure.Placed size
  stack : ∀ value ∈ frame.stack, value.Placed size
  heap : ∀ slot ∈ frame.template.heapSlots,
    ∃ cell, cell < size ∧ frame.slots[slot.toNat]? = some (.box cell)
  direct : ∀ index value,
    (∀ slot ∈ frame.template.heapSlots, slot.toNat ≠ index) →
    frame.slots[index]? = some value → value.Placed size
  captured : ∀ (position : Nat) slot cell,
    frame.template.capturesInner[position]? = some slot →
    frame.closure.boxes[position]? = some cell →
    frame.slots[slot.toNat]? = some (.box cell)
  stash : ∀ link, frame.link = some link →
    ∀ handler ∈ link.stash, handler.closure.Placed size

/-- All boxes of the machine are in their places, and they have cells. -/
structure Machine.Placed (machine : Machine) : Prop where
  frames : ∀ frame ∈ machine.frames, frame.Placed machine.store.cells.size
  handlers : ∀ handler ∈ machine.handlers,
    handler.closure.Placed machine.store.cells.size
  globals : ∀ entry ∈ machine.globals, entry.2.Placed machine.store.cells.size
  methods : ∀ entry ∈ machine.methods, entry.2.Placed machine.store.cells.size
  cells : ∀ value ∈ machine.store.cells, value.Placed machine.store.cells.size

theorem Closure.Placed.mono {size more : Nat}
    {closure : Closure}
    (placed : closure.Placed size)
    (grows : size ≤ more) :
    closure.Placed more :=
  ⟨placed.sound, placed.tidy, fun cell member =>
    Nat.lt_of_lt_of_le (placed.boxes cell member) grows⟩

theorem Value.Made.grow {size more : Nat} {value : Value}
    (placed : value.Placed size)
    (grows : size ≤ more) :
    value.Placed more :=
  placed.mono fun _ closurePlaced => closurePlaced.mono grows

namespace Frame.Placed

variable {size more : Nat} {frame : Frame}

theorem mono (placed : frame.Placed size) (grows : size ≤ more) :
    frame.Placed more where
  closure := placed.closure.mono grows
  stack := fun value member => (placed.stack value member).grow grows
  heap := by
    intro slot heap
    obtain ⟨cell, inside, held⟩ := placed.heap slot heap
    exact ⟨cell, Nat.lt_of_lt_of_le inside grows, held⟩
  direct := fun index value unboxed held =>
    (placed.direct index value unboxed held).grow grows
  captured := placed.captured
  stash := fun link linked handler member =>
    (placed.stash link linked handler member).mono grows

/-- Only the operand stack matters when a frame goes on with the same slots. -/
theorem proceed
    (placed : frame.Placed size)
    {stack : List Value} {place : Nat}
    (stackPlaced : ∀ value ∈ stack, value.Placed size) :
    ({ frame with stack := stack, ip := place } : Frame).Placed size :=
  ⟨placed.closure, stackPlaced, placed.heap, placed.direct, placed.captured,
    placed.stash⟩

theorem given
    (placed : frame.Placed size)
    {value : Value}
    (valuePlaced : value.Placed size) :
    (frame.given value).Placed size := by
  refine placed.proceed ?_
  intro held member
  rcases List.mem_cons.1 member with rfl | old
  · exact valuePlaced
  · exact placed.stack held old

/-- A value is stored in a slot that holds no box. -/
theorem store
    (placed : frame.Placed size)
    {stack : List Value} {slot : UInt8} {value : Value}
    (stackPlaced : ∀ value ∈ stack, value.Placed size)
    (valuePlaced : value.Placed size)
    (unboxed : slot ∉ frame.template.heapSlots) :
    ({ frame with stack := stack, slots := frame.slots.set slot.toNat value } :
      Frame).Placed size where
  closure := placed.closure
  stack := stackPlaced
  heap := by
    intro other heap
    obtain ⟨cell, inside, held⟩ := placed.heap other heap
    refine ⟨cell, inside, (List.getElem?_set_ne ?_).trans held⟩
    intro same
    exact unboxed (UInt8.toNat_inj.1 same ▸ heap)
  direct := by
    intro index held outside present
    by_cases same : slot.toNat = index
    · subst same
      rw [List.getElem?_set_self
        (by simpa using (List.getElem?_eq_some_iff.1 present).1)] at present
      cases present
      exact valuePlaced
    · rw [List.getElem?_set_ne same] at present
      exact placed.direct index held outside present
  captured := by
    intro position other cell received given
    refine (List.getElem?_set_ne ?_).trans
      (placed.captured position other cell received given)
    intro same
    cases placed.closure.sound.template with
    | intro code laidOut _ _ =>
        exact unboxed
          (UInt8.toNat_inj.1 same ▸ laidOut.captured other
            (List.mem_of_getElem? received))
  stash := placed.stash

/-- A slot holds a box with a cell or a value without boxes. -/
theorem slot
    (placed : frame.Placed size)
    {index : Nat} {value : Value}
    (held : frame.slots[index]? = some value) :
    value.Placed size ∨ ∃ cell, cell < size ∧ value = .box cell := by
  by_cases boxed : ∃ slot ∈ frame.template.heapSlots, slot.toNat = index
  · obtain ⟨slot, heap, rfl⟩ := boxed
    obtain ⟨cell, inside, present⟩ := placed.heap slot heap
    exact .inr ⟨cell, inside, Option.some.inj (held.symm.trans present)⟩
  · exact .inl
      (placed.direct index value
        (fun slot heap same => boxed ⟨slot, heap, same⟩) held)

theorem mem_heapSlots
    (placed : frame.Placed size)
    {slot : UInt8} {cell : Nat}
    (held : frame.slots[slot.toNat]? = some (.box cell)) :
    slot ∈ frame.template.heapSlots := by
  by_contra unboxed
  refine (placed.direct slot.toNat _ ?_ held).not_box
  exact fun other heap same => unboxed (UInt8.toNat_inj.1 same ▸ heap)

theorem cell_lt
    (placed : frame.Placed size)
    {index cell : Nat}
    (held : frame.slots[index]? = some (.box cell)) :
    cell < size := by
  rcases placed.slot held with boxless | ⟨other, inside, same⟩
  · exact boxless.not_box.elim
  · cases same
    exact inside

end Frame.Placed

/-! ## New frames -/

/-- Captured boxes are placed into different slots, and the other slots stay as
they are. -/
theorem placeCaptures_getElem? {owner : String}
    {captures : List (UInt8 × Nat)} {slots placed : List Value}
    (placedEq : placeCaptures owner captures slots = .ok placed)
    (distinct : (captures.map (·.1)).Nodup) :
    (∀ capture ∈ captures, placed[capture.1.toNat]? = some (.box capture.2)) ∧
      ∀ index, (∀ capture ∈ captures, capture.1.toNat ≠ index) →
        placed[index]? = slots[index]? := by
  induction captures generalizing slots with
  | nil =>
      cases placedEq
      exact ⟨by simp, fun _ _ => rfl⟩
  | cons capture others inner =>
      obtain ⟨slot, cell⟩ := capture
      obtain ⟨new, othersDistinct⟩ :=
        List.nodup_cons.1 (List.map_cons ▸ distinct)
      simp only [placeCaptures] at placedEq
      split at placedEq
      next present =>
        obtain ⟨filled, kept⟩ := inner placedEq othersDistinct
        have apart : ∀ other ∈ others, other.1.toNat ≠ slot.toNat := by
          intro other member same
          exact new (List.mem_map.2 ⟨other, member, UInt8.toNat_inj.1 same⟩)
        refine ⟨?_, ?_⟩
        · intro other member
          rcases List.mem_cons.1 member with rfl | later
          · rw [kept _ apart, List.getElem?_set_self present]
          · exact filled other later
        · intro index outside
          rw [kept index fun other member =>
            outside other (List.mem_cons_of_mem _ member),
            List.getElem?_set_ne (outside _ List.mem_cons_self)]
      next => cases placedEq

/-- The values of different slots are moved into new boxes, one cell after the
other, and the other slots stay as they are. -/
theorem boxSlots_getElem? {owner : String}
    {chosen : List UInt8} {slots placed : List Value} {store after : Store}
    (placedEq : boxSlots owner chosen slots store = .ok (placed, after))
    (distinct : chosen.Nodup) :
    (∀ (index : Nat) slot, chosen[index]? = some slot →
        placed[slot.toNat]? = some (.box (store.cells.size + index))) ∧
      (∀ index, (∀ slot ∈ chosen, slot.toNat ≠ index) →
        placed[index]? = slots[index]?) ∧
      after.cells.size = store.cells.size + chosen.length ∧
      ∀ value ∈ after.cells, value ∈ store.cells ∨
        ∃ slot ∈ chosen, slots[slot.toNat]? = some value := by
  induction chosen generalizing slots store with
  | nil =>
      cases placedEq
      exact ⟨by simp, fun _ _ => rfl, rfl, fun _ old => .inl old⟩
  | cons slot others inner =>
      obtain ⟨new, othersDistinct⟩ := List.nodup_cons.1 distinct
      simp only [boxSlots] at placedEq
      split at placedEq
      next content present =>
        obtain ⟨filled, kept, count, contents⟩ := inner placedEq othersDistinct
        have inside : slot.toNat < slots.length :=
          (List.getElem?_eq_some_iff.1 present).1
        have apart : ∀ other ∈ others, other.toNat ≠ slot.toNat :=
          fun other member same => new (UInt8.toNat_inj.1 same ▸ member)
        have size : (store.newBox content).2.cells.size =
            store.cells.size + 1 := by
          simp [Store.newBox]
        refine ⟨?_, ?_, ?_, ?_⟩
        · intro index other held
          cases index with
          | zero =>
              cases held
              rw [kept _ apart, List.getElem?_set_self inside]
              rfl
          | succ index =>
              rw [filled index other held, size]
              congr 2
              omega
        · intro index outside
          rw [kept index fun other member =>
            outside other (List.mem_cons_of_mem _ member),
            List.getElem?_set_ne (outside _ List.mem_cons_self)]
        · rw [count, size, List.length_cons]
          omega
        · intro value member
          rcases contents value member with old | ⟨other, chosen, held⟩
          · rcases Array.mem_push.1 old with older | rfl
            · exact .inl older
            · exact .inr ⟨slot, List.mem_cons_self, present⟩
          · rw [List.getElem?_set_ne fun same => apart other chosen same.symm]
              at held
            exact .inr ⟨other, List.mem_cons_of_mem _ chosen, held⟩
      next => cases placedEq

/-- The boxed slots that a function does not capture. -/
def Template.ownHeapSlots (template : Template) : List UInt8 :=
  template.heapSlots.filter fun slot => !template.capturesInner.contains slot

theorem Template.mem_ownHeapSlots {template : Template} {slot : UInt8} :
    slot ∈ template.ownHeapSlots ↔
      slot ∈ template.heapSlots ∧ slot ∉ template.capturesInner := by
  simp [ownHeapSlots]

/-- The slots of a new frame for a closure, and the store after its boxes are
made. -/
structure Closure.Fills
    (closure : Closure) (arguments : List Value) (store : Store)
    (slots : List Value) (after : Store) : Prop where
  captured : ∀ (position : Nat) slot cell,
    closure.template.capturesInner[position]? = some slot →
    closure.boxes[position]? = some cell → slots[slot.toNat]? = some (.box cell)
  own : ∀ (index : Nat) slot,
    closure.template.ownHeapSlots[index]? = some slot →
    slots[slot.toNat]? = some (.box (store.cells.size + index))
  direct : ∀ index, (∀ slot ∈ closure.template.heapSlots, slot.toNat ≠ index) →
    slots[index]? = (closure.initialSlots arguments)[index]?
  size : after.cells.size = store.cells.size +
    closure.template.ownHeapSlots.length
  contents : ∀ value ∈ after.cells,
    value ∈ store.cells ∨ value ∈ closure.initialSlots arguments

/-- A frame is opened with captured and new boxes in its slots. -/
theorem Machine.openFrame_fills {machine after : Machine}
    {closure : Closure} {arguments : List Value}
    (sound : closure.Sound)
    (tidy : closure.template.Tidy)
    (opened : machine.openFrame closure arguments = .ok after) :
    ∃ slots store, closure.Fills arguments machine.store slots store ∧
      after = { machine with
        frames := ⟨closure, [], slots, 0, none⟩ :: machine.frames, store :=
          store } := by
  obtain ⟨_, placed, slots, store, placedEq, slotsEq, rfl⟩ :=
    openFrame_inversion opened
  refine ⟨slots, store, ?_, rfl⟩
  cases sound.template with
  | intro code laidOut _ _ =>
  cases tidy with
  | intro innerDistinct _ _ heapSorted _ =>
  have boxCount := sound.boxes
  obtain ⟨filled, kept⟩ := placeCaptures_getElem? placedEq (by
    rw [List.map_fst_zip (by omega)]
    exact innerDistinct)
  obtain ⟨boxed, keptBoxing, size, contents⟩ := boxSlots_getElem? slotsEq
    (List.Pairwise.filter _ (heapSorted.imp UInt8.ne_of_lt))
  refine ⟨?_, boxed, ?_, size, ?_⟩
  · intro position slot cell received given
    rw [keptBoxing]
    · refine filled (slot, cell) (List.mem_iff_getElem?.2 ⟨position, ?_⟩)
      simp [List.getElem?_zip_eq_some, received, given]
    · intro other member same
      rw [UInt8.toNat_inj.1 same] at member
      exact (Template.mem_ownHeapSlots.1 member).2
        (List.mem_of_getElem? received)
  · intro index outside
    rw [keptBoxing index fun slot member =>
      outside slot (Template.mem_ownHeapSlots.1 member).1,
      kept index fun capture member =>
        outside capture.1 (laidOut.captured _ (List.of_mem_zip member).1)]
  · intro value member
    rcases contents value member with old | ⟨slot, chosen, held⟩
    · exact .inl old
    · rw [kept] at held
      · exact .inr (List.mem_of_getElem? held)
      · intro capture captured same
        rw [← UInt8.toNat_inj.1 same] at chosen
        exact (Template.mem_ownHeapSlots.1 chosen).2
          (List.of_mem_zip captured).1

/-- The boxes that a frame does not capture are different from each other and
from those that it captures, and their cells are the given one or later. -/
def Frame.OwnsFrom (base : Nat) (frame : Frame) : Prop :=
  ∀ slot ∈ frame.template.heapSlots, slot ∉ frame.template.capturesInner →
    ∃ cell, base ≤ cell ∧ frame.slots[slot.toNat]? = some (.box cell) ∧
      ∀ other ∈ frame.template.heapSlots,
        frame.slots[other.toNat]? = some (.box cell) → other = slot

namespace Closure.Fills

variable {closure : Closure} {arguments slots : List Value}
    {store after : Store}

/-- A boxed slot of a new frame holds a captured box, whose cell was there
before, or a new one. -/
theorem boxed
    (fills : closure.Fills arguments store slots after)
    (placed : closure.Placed store.cells.size)
    {slot : UInt8}
    (heap : slot ∈ closure.template.heapSlots) :
    (slot ∈ closure.template.capturesInner ∧
        ∃ cell, cell < store.cells.size ∧
          slots[slot.toNat]? = some (.box cell)) ∨
      ∃ index, closure.template.ownHeapSlots[index]? = some slot ∧
        slots[slot.toNat]? = some (.box (store.cells.size + index)) := by
  by_cases inner : slot ∈ closure.template.capturesInner
  · obtain ⟨position, received⟩ := List.mem_iff_getElem?.1 inner
    have inside := (List.getElem?_eq_some_iff.1 received).1
    have given := List.getElem?_eq_getElem (l := closure.boxes) (i := position)
      (placed.sound.boxes ▸ inside)
    exact .inl ⟨inner, _, placed.boxes _ (List.mem_of_getElem? given),
      fills.captured _ _ _ received given⟩
  · obtain ⟨index, held⟩ :=
      List.mem_iff_getElem?.1 (Template.mem_ownHeapSlots.2 ⟨heap, inner⟩)
    exact .inr ⟨index, held, fills.own index slot held⟩

theorem ownsFrom
    (fills : closure.Fills arguments store slots after)
    (placed : closure.Placed store.cells.size) :
    (⟨closure, [], slots, 0, none⟩ : Frame).OwnsFrom store.cells.size := by
  intro slot heap notInner
  rcases fills.boxed placed heap with ⟨inner, _⟩ | ⟨index, chosen, held⟩
  · exact absurd inner notInner
  · refine ⟨_, Nat.le_add_right _ _, held, ?_⟩
    intro other otherHeap otherHeld
    change slots[other.toNat]? = _ at otherHeld
    rcases fills.boxed placed otherHeap
      with ⟨_, cell, inside, present⟩ | ⟨place, again, present⟩
    · cases otherHeld.symm.trans present
      omega
    · have same : place = index := by
        have := Value.box.inj (Option.some.inj (present.symm.trans otherHeld))
        omega
      subst same
      exact Option.some.inj (again.symm.trans chosen)

end Closure.Fills

namespace Machine

/-- The machine `after` is placed and has at least the cells of another one. If
it has one more frame, that frame has new boxes. -/
structure Places (machine after : Machine) : Prop where
  placed : after.Placed
  grows : machine.store.cells.size ≤ after.store.cells.size
  opened : ∀ frame below, after.frames = frame :: below →
    machine.frames.length ≤ below.length →
    frame.OwnsFrom machine.store.cells.size

/-- What executing an instruction leads to is placed. -/
def PlacesFlow (machine : Machine) : Flow → Prop
  | .onward after => machine.Places after
  | .finished _ after => after.Placed

variable {machine before after : Machine} {frame : Frame} {below : List Frame}

/-- Earlier operations that open no frame do not matter. -/
theorem Places.of_before
    (places : before.Places after)
    (count : before.frames.length = machine.frames.length)
    (size : before.store.cells.size = machine.store.cells.size) :
    machine.Places after where
  placed := places.placed
  grows := size ▸ places.grows
  opened := by
    intro frame below frames more
    rw [← size]
    exact places.opened frame below frames (count ▸ more)

/-- A placed machine with as many frames or fewer. -/
theorem Places.of_no_frame
    (placed : after.Placed)
    (grows : machine.store.cells.size ≤ after.store.cells.size)
    (few : after.frames.length ≤ machine.frames.length) :
    machine.Places after where
  placed := placed
  grows := grows
  opened := by
    intro frame below frames more
    rw [frames, List.length_cons] at few
    omega

namespace Placed

theorem newest
    (placed : machine.Placed)
    (frames : machine.frames = frame :: below) :
    frame.Placed machine.store.cells.size :=
  placed.frames frame (frames ▸ List.mem_cons_self)

theorem older
    (placed : machine.Placed)
    (frames : machine.frames = frame :: below) :
    ∀ other ∈ below, other.Placed machine.store.cells.size :=
  fun other member =>
    placed.frames other (frames ▸ List.mem_cons_of_mem _ member)

/-- The newest frame is replaced. -/
theorem replace
    (placed : machine.Placed)
    (frames : machine.frames = frame :: below)
    {changed : Frame}
    (changedPlaced : changed.Placed machine.store.cells.size) :
    ({ machine with frames := changed :: below } : Machine).Placed where
  frames := by
    intro other member
    rcases List.mem_cons.1 member with rfl | old
    · exact changedPlaced
    · exact placed.older frames other old
  handlers := placed.handlers
  globals := placed.globals
  methods := placed.methods
  cells := placed.cells

theorem replace_places
    (placed : machine.Placed)
    (frames : machine.frames = frame :: below)
    {changed : Frame}
    (changedPlaced : changed.Placed machine.store.cells.size) :
    machine.Places { machine with frames := changed :: below } :=
  .of_no_frame (placed.replace frames changedPlaced) (Nat.le_refl _)
    (by simp [frames])

/-- Frames and handlers go. -/
theorem unwind
    (placed : machine.Placed)
    {frames : List Frame} {handlers : List Handler}
    (fewer : ∀ other ∈ frames, other ∈ machine.frames)
    (known : ∀ handler ∈ handlers,
      handler.closure.Placed machine.store.cells.size) :
    ({ machine with frames := frames, handlers := handlers } : Machine).Placed
      where
  frames := fun other member => placed.frames other (fewer other member)
  handlers := known
  globals := placed.globals
  methods := placed.methods
  cells := placed.cells

theorem take (placed : machine.Placed) (count : Nat) :
    (machine.take count).Placed :=
  ⟨placed.frames, placed.handlers, placed.globals, placed.methods, placed.cells⟩

theorem cleared (placed : machine.Placed) : machine.cleared.Placed :=
  placed.unwind (by simp) (by simp)

theorem spare
    (placed : machine.Placed)
    (spares : machine.Spares (Value.Placed machine.store.cells.size) after) :
    after.Placed := by
  constructor
  · rw [spares.frames, spares.cells]
    exact placed.frames
  · rw [spares.handlers, spares.cells]
    exact placed.handlers
  · rw [spares.globals, spares.cells]
    exact placed.globals
  · rw [spares.cells]
    exact spares.methods placed.methods
  · rw [spares.cells]
    exact placed.cells

end Placed

/-! ## Operations on the operand stack -/

/-- Tying the newest frame to an effect stashes handlers in it. -/
theorem Places.tie
    (places : machine.Places before)
    {link : EffectLink}
    (stashed : ∀ handler ∈ link.stash,
      handler.closure.Placed machine.store.cells.size)
    (tied : before.tie link = .ok after) :
    machine.Places after := by
  obtain ⟨frame, below, frames, rfl⟩ := tie_inversion tied
  have framePlaced := places.placed.newest frames
  refine ⟨places.placed.replace frames
    ⟨framePlaced.closure, framePlaced.stack, framePlaced.heap,
    framePlaced.direct, framePlaced.captured, ?_⟩, places.grows, ?_⟩
  · rintro _ ⟨⟩ handler member
    exact (stashed handler member).mono places.grows
  · rintro _ _ ⟨⟩ more
    exact places.opened frame below frames more

namespace Placed

variable {value : Value}

theorem push
    (placed : machine.Placed)
    (valuePlaced : value.Placed machine.store.cells.size)
    (pushed : machine.push value = .ok after) :
    after.Placed ∧ after.store = machine.store ∧
    after.frames.length = machine.frames.length := by
  obtain ⟨frame, below, frames, _, rfl⟩ := push_inversion pushed
  exact ⟨placed.replace frames ((placed.newest frames).given valuePlaced), rfl,
    by simp [frames]⟩

theorem push_places
    (placed : machine.Placed)
    (valuePlaced : value.Placed machine.store.cells.size)
    (pushed : machine.push value = .ok after) :
    machine.Places after := by
  obtain ⟨afterPlaced, store, count⟩ := placed.push valuePlaced pushed
  exact .of_no_frame afterPlaced (store ▸ Nat.le_refl _) (Nat.le_of_eq count)

theorem pop
    (placed : machine.Placed)
    (popped : machine.pop = .ok (value, after)) :
    value.Placed machine.store.cells.size ∧ after.Placed ∧
    after.store = machine.store ∧
      after.frames.length = machine.frames.length := by
  obtain ⟨frame, below, stack, frames, stackEq, rfl⟩ := pop_inversion popped
  have framePlaced := placed.newest frames
  refine ⟨framePlaced.stack value (by simp [stackEq]), placed.replace frames ?_,
    rfl, by simp [frames]⟩
  exact framePlaced.proceed fun held member =>
    framePlaced.stack held (stackEq ▸ List.mem_cons_of_mem _ member)

/-! ## Calls -/

/-- Opening a frame gives it new boxes for the slots that it does not
capture. -/
theorem openFrame
    (placed : machine.Placed)
    {closure : Closure} {arguments : List Value}
    (closurePlaced : closure.Placed machine.store.cells.size)
    (argumentsPlaced : ∀ value ∈ arguments,
      value.Placed machine.store.cells.size)
    (opened : machine.openFrame closure arguments = .ok after) :
    machine.Places after := by
  obtain ⟨slots, store, fills, rfl⟩ :=
    openFrame_fills closurePlaced.sound closurePlaced.tidy opened
  have grows : machine.store.cells.size ≤ store.cells.size := by
    have := fills.size
    omega
  have initialPlaced : ∀ value ∈ closure.initialSlots arguments,
      value.Placed machine.store.cells.size := by
    intro value member
    rcases List.mem_append.1 member with given | unset
    · rcases List.mem_cons.1 given with rfl | argument
      · exact .closure closurePlaced
      · exact argumentsPlaced value argument
    · rw [List.eq_of_mem_replicate unset]
      exact .nil
  have framePlaced :
      (⟨closure, [], slots, 0, none⟩ : Frame).Placed store.cells.size := by
    refine ⟨closurePlaced.mono grows, by simp, ?_, ?_, fills.captured, by
      rintro _ ⟨⟩⟩
    · intro slot heap
      rcases fills.boxed closurePlaced heap
        with ⟨_, cell, inside, held⟩ | ⟨index, chosen, held⟩
      · exact ⟨cell, Nat.lt_of_lt_of_le inside grows, held⟩
      · have := (List.getElem?_eq_some_iff.1 chosen).1
        have := fills.size
        exact ⟨_, by omega, held⟩
    · intro index value outside held
      have initial := (fills.direct index outside).symm.trans held
      exact (initialPlaced value (List.mem_of_getElem? initial)).grow grows
  refine ⟨⟨?_, ?_, ?_, ?_, ?_⟩, grows, ?_⟩
  · intro other member
    rcases List.mem_cons.1 member with rfl | old
    · exact framePlaced
    · exact (placed.frames other old).mono grows
  · exact fun handler member => (placed.handlers handler member).mono grows
  · exact fun entry member => (placed.globals entry member).grow grows
  · exact fun entry member => (placed.methods entry member).grow grows
  · intro value member
    rcases fills.contents value member with old | initial
    · exact (placed.cells value old).grow grows
    · exact (initialPlaced value initial).grow grows
  · rintro _ _ ⟨⟩ _
    exact fills.ownsFrom closurePlaced

/-- Resuming brings back handlers that were stashed. -/
theorem resume
    (placed : machine.Placed)
    (resumes : machine.resume = .ok after) :
    after.Placed ∧ after.store = machine.store ∧
    after.frames.length ≤ machine.frames.length := by
  obtain ⟨link, found, rfl⟩ := resume_inversion resumes
  obtain ⟨frame, live, linked⟩ := List.exists_of_findSome?_eq_some found
  refine ⟨placed.unwind (fun other member => List.mem_of_mem_drop member) ?_,
    rfl, by simp only [length_oldest, Nat.min_le_right]⟩
  intro handler member
  rcases List.mem_append.1 member with stashed | old
  · exact (placed.frames frame live).stash link linked handler stashed
  · exact placed.handlers handler (List.mem_of_mem_drop old)

theorem callValue
    (placed : machine.Placed)
    {callee : Value} {arguments : List Value}
    (calleePlaced : callee.Placed machine.store.cells.size)
    (argumentsPlaced : ∀ value ∈ arguments,
      value.Placed machine.store.cells.size)
    (called : machine.callValue callee arguments = .ok after) :
    machine.Places after := by
  rcases callValue_inversion called with ⟨closure, rfl, _, opens⟩ |
    ⟨builtin, result, invoked, rfl, calls, pushes⟩
  · exact placed.openFrame calleePlaced.closed argumentsPlaced opens
  · obtain ⟨resultPlaced, spares | ⟨_, resumes⟩⟩ :=
      Builtin.call_kept (Value.Made.stable _).kept argumentsPlaced calls
    · refine ((placed.spare spares).push_places ?_ pushes).of_before
        (by rw [spares.frames]) (by rw [spares.cells])
      rw [spares.cells]
      exact resultPlaced
    · obtain ⟨resumed, store, few⟩ := placed.resume resumes
      obtain ⟨pushed, pushedStore, count⟩ :=
        resumed.push (store ▸ resultPlaced) pushes
      exact .of_no_frame pushed (by rw [pushedStore, store]) (count ▸ few)

theorem call
    (placed : machine.Placed)
    {count : Nat}
    (called : machine.call count = .ok after) :
    machine.Places after := by
  obtain ⟨frame, below, callee, rest, frames, parts, calls⟩ :=
    call_inversion called
  have framePlaced := placed.newest frames
  have taken : ∀ value ∈ frame.stack.drop count,
      value.Placed machine.store.cells.size :=
    fun value member => framePlaced.stack value (List.mem_of_mem_drop member)
  rw [parts] at taken
  have popped := placed.replace frames
    (@Frame.Placed.proceed _ _ framePlaced rest frame.ip
    fun value member => taken value (List.mem_cons_of_mem _ member))
  refine (popped.callValue (taken callee List.mem_cons_self) ?_ calls).of_before
    (by simp [frames]) rfl
  intro value member
  exact framePlaced.stack value
    (List.mem_of_mem_take (List.mem_reverse.1 member))

theorem found
    (placed : machine.Placed)
    {typeName : String} {operator : Operator} {method : Value}
    (found : machine.methods.find? typeName operator = some method) :
    method.Placed machine.store.cells.size := by
  obtain ⟨entry, member, rfl⟩ := MethodTable.mem_of_find? found
  exact placed.methods entry member

end Placed

/-! ## Operators and effects -/

/-- An operation that began with a machine has opened no frame and made no box
so far, and the values in flight are placed. -/
structure Handles (start machine : Machine) (values : List Value) : Prop where
  placed : machine.Placed
  size : machine.store.cells.size = start.store.cells.size
  count : machine.frames.length = start.frames.length
  values : ∀ value ∈ values, value.Placed machine.store.cells.size

theorem Handles.carries (start : Machine) :
    Carries (Handles start) start.Places where
  pop handles popped := by
    obtain ⟨valuePlaced, afterPlaced, store, count⟩ := handles.placed.pop popped
    rw [← store] at valuePlaced
    exact ⟨afterPlaced, store ▸ handles.size, count.trans handles.count,
      List.forall_mem_cons.2 ⟨valuePlaced, store ▸ handles.values⟩⟩
  push handles pushed := by
    obtain ⟨valuePlaced, others⟩ := List.forall_mem_cons.1 handles.values
    obtain ⟨afterPlaced, store, count⟩ := handles.placed.push valuePlaced pushed
    exact ⟨afterPlaced, store ▸ handles.size, count.trans handles.count,
      store ▸ others⟩
  landed handles :=
    .of_no_frame handles.placed (Nat.le_of_eq handles.size.symm)
      (Nat.le_of_eq handles.count)
  call handles called :=
    (handles.placed.call called).of_before handles.count handles.size
  scalar handles scalar := ⟨handles.placed, handles.size, handles.count,
    List.forall_mem_singleton.2 ((Value.Made.stable _).kept.of_isScalar scalar)⟩
  binary handles ruled := by
    obtain ⟨leftPlaced, others⟩ := List.forall_mem_cons.1 handles.values
    have resultPlaced :=
      Operator.binary_kept (Value.Made.stable _).kept leftPlaced
      (List.forall_mem_singleton.1 others) ruled
    exact ⟨handles.placed.take _, handles.size, handles.count,
      List.forall_mem_singleton.2 resultPlaced⟩
  method handles found := ⟨handles.placed, handles.size, handles.count,
    List.forall_mem_cons.2 ⟨handles.placed.found found, handles.values⟩⟩
  masked handles found := by
    obtain ⟨chosen, _, staying⟩ :=
      Dispatch.forall_of_find? handles.placed.handlers found
    exact ⟨handles.placed.unwind (fun _ live => live) staying, handles.size,
      handles.count, List.forall_mem_cons.2 ⟨.closure chosen, handles.values⟩⟩
  tie handles found same places tied := by
    obtain ⟨_, stashed, _⟩ :=
      Dispatch.forall_of_find? handles.placed.handlers found
    rw [handles.size, ← same] at stashed
    exact places.tie stashed tied

/-- An operation begins. -/
theorem Placed.handles (placed : machine.Placed) : machine.Handles machine [] :=
  ⟨placed, rfl, rfl, List.forall_mem_nil _⟩

namespace Placed

variable {value : Value}

theorem setHandler
    (placed : machine.Placed)
    {effect : String} {distance : Nat}
    (registered : machine.setHandler effect distance = .ok after) :
    machine.Places after := by
  obtain ⟨closure, popped, _, _, pops, _, rfl⟩ :=
    setHandler_inversion registered
  obtain ⟨closurePlaced, poppedPlaced, store, count⟩ := placed.pop pops
  rw [← store] at closurePlaced
  refine .of_no_frame (poppedPlaced.unwind (fun _ live => live) ?_)
    (by simp [store]) (by simp [count])
  exact List.forall_mem_cons.2 ⟨closurePlaced.closed, poppedPlaced.handlers⟩

theorem abandon
    (placed : machine.Placed)
    {link : EffectLink} {value : Value}
    (valuePlaced : value.Placed machine.store.cells.size)
    (abandoned : machine.abandon link value = .ok after) :
    after.Placed ∧ after.store = machine.store ∧
    after.frames.length ≤ machine.frames.length := by
  obtain ⟨frame, below, kept, pushes⟩ := abandon_inversion abandoned
  have older : ∀ other ∈ frame :: below, other ∈ machine.frames :=
    fun other member =>
      List.mem_of_mem_drop (kept ▸ member : other ∈ oldest _ machine.frames)
  have framePlaced := placed.frames frame (older frame List.mem_cons_self)
  have unwound : ({ machine with
      frames := frame :: below
      handlers := oldest link.groupStart machine.handlers } : Machine).Placed :=
    placed.unwind older fun handler member =>
      placed.handlers handler (List.mem_of_mem_drop member)
  have completed := unwound.replace rfl (@Frame.Placed.proceed _ _ framePlaced
    (oldest link.depth frame.stack) link.target
    fun held member => framePlaced.stack held (List.mem_of_mem_drop member))
  obtain ⟨afterPlaced, store, count⟩ := completed.push valuePlaced pushes
  refine ⟨afterPlaced, store, count ▸ ?_⟩
  change (frame :: below).length ≤ machine.frames.length
  rw [← kept]
  simp only [length_oldest, Nat.min_le_right]

/-! ## Instructions -/

theorem withoutNewest (placed : machine.Placed) :
    machine.withoutNewest.Placed :=
  placed.unwind (fun _ member => List.mem_of_mem_tail member)
    fun handler member =>
      placed.handlers handler (List.dropWhile_subset _ member)

theorem returnValue
    (placed : machine.Placed)
    {flow : Flow}
    (returned : machine.returnValue = .ok flow) :
    machine.PlacesFlow flow := by
  obtain ⟨frame, below, value, frames, stack, result⟩ :=
    returnValue_inversion returned
  have valuePlaced := (placed.newest frames).stack value (by simp [stack])
  have fewer : machine.withoutNewest.frames.length ≤ machine.frames.length := by
    simp [Machine.withoutNewest]
  rcases result with ⟨link, completed, abandons, rfl⟩ | rfl | ⟨pushed,
    pushes, rfl⟩
  · obtain ⟨afterPlaced, store, few⟩ :=
      placed.withoutNewest.abandon valuePlaced abandons
    exact .of_no_frame afterPlaced (by rw [store]; rfl) (Nat.le_trans few fewer)
  · exact placed.withoutNewest
  · obtain ⟨afterPlaced, store, count⟩ :=
      placed.withoutNewest.push valuePlaced pushes
    exact .of_no_frame afterPlaced (by rw [store]; rfl) (count ▸ fewer)

/-- The boxes in slots of a frame have cells. -/
theorem captureBoxes
    (framePlaced : frame.Placed machine.store.cells.size)
    {slots : List UInt8} {cells : List Nat}
    (captured : Machine.captureBoxes frame slots = .ok cells) :
    cells.length = slots.length ∧
      (∀ (position : Nat) slot cell, slots[position]? = some slot →
        cells[position]? = some cell →
        frame.slots[slot.toNat]? = some (.box cell)) ∧
      ∀ cell ∈ cells, cell < machine.store.cells.size := by
  induction slots generalizing cells with
  | nil =>
      cases captured
      exact ⟨rfl, by simp, by simp⟩
  | cons slot slots inner =>
      obtain ⟨value, reads, rest⟩ := Outcome.bind_eq_ok.1 captured
      unfold Frame.slot at reads
      split at reads
      next held present =>
        cases reads
        split at rest
        next cell =>
          obtain ⟨others, capturesOthers, result⟩ := Outcome.bind_eq_ok.1 rest
          cases result
          obtain ⟨count, boxes, inside⟩ := inner capturesOthers
          refine ⟨by simp [count], ?_, ?_⟩
          · intro position other found given received
            cases position with
            | zero =>
                cases given
                cases received
                exact present
            | succ position => exact boxes position other found given received
          · intro found member
            rcases List.mem_cons.1 member with rfl | later
            · exact framePlaced.cell_lt present
            · exact inside found later
        next => cases rest
      next => cases reads

/-- A closure is made with the boxes in the slots that its function captures. -/
theorem makeClosure
    (placed : machine.Placed)
    (frames : machine.frames = frame :: below)
    {index : UInt8}
    (made : machine.makeClosure index = .ok after) :
    ∃ closure, closure.Placed machine.store.cells.size ∧
      frame.template.pools.IsFunction index closure.template ∧
      closure.boxes.length = closure.template.capturesOuter.length ∧
      (∀ (position : Nat) slot cell,
        closure.template.capturesOuter[position]? = some slot →
        closure.boxes[position]? = some cell →
        frame.slots[slot.toNat]? = some (.box cell)) ∧
      after = { machine.take 1 with frames := frame.given (.closure closure) ::
        below } := by
  have framePlaced := placed.newest frames
  obtain ⟨_, _, identity, template, boxes, same, constant, captures, pushes⟩ :=
    makeClosure_inversion made
  cases frames.symm.trans same
  obtain ⟨count, held, inside⟩ := captureBoxes framePlaced captures
  have member : .function identity template ∈ frame.template.constants :=
    List.mem_of_getElem? constant
  refine ⟨⟨machine.store.unused, template, boxes⟩, ?_, ⟨identity, constant⟩,
    count, held, (push_eq_ok (by exact frames) pushes).2⟩
  cases framePlaced.closure.sound.template with
  | intro _ _ functions _ =>
  cases framePlaced.closure.tidy with
  | intro _ _ _ _ tidyFunctions =>
  have sound := functions identity template member
  refine ⟨⟨sound, ?_⟩, tidyFunctions identity template member, inside⟩
  cases sound with
  | intro _ laidOut _ _ => exact count.trans laidOut.paired

theorem loadHeap
    (placed : machine.Placed)
    {instruction : Instruction}
    (loaded : machine.loadHeap instruction = .ok after) :
    machine.Places after := by
  obtain ⟨cell, pushes⟩ := loadHeap_inversion loaded
  refine placed.push_places ?_ pushes
  unfold Store.read
  cases present : machine.store.cells[cell]? with
  | none => exact .nil
  | some value => exact placed.cells value (Array.mem_of_getElem? present)

theorem storeHeap
    (placed : machine.Placed)
    {instruction : Instruction}
    (stored : machine.storeHeap instruction = .ok after) :
    machine.Places after := by
  obtain ⟨value, popped, cell, pops, rfl⟩ := storeHeap_inversion stored
  obtain ⟨valuePlaced, poppedPlaced, store, count⟩ := placed.pop pops
  have size : (popped.store.write cell value).cells.size =
      popped.store.cells.size := by
    simp [Store.write]
  refine .of_no_frame ⟨?_, ?_, ?_, ?_, ?_⟩ (by simp [Store.write, store])
    (Nat.le_of_eq count)
  · rw [size]
    exact poppedPlaced.frames
  · rw [size]
    exact poppedPlaced.handlers
  · rw [size]
    exact poppedPlaced.globals
  · rw [size]
    exact poppedPlaced.methods
  · rw [size]
    intro content member
    rcases Array.mem_or_eq_of_mem_setIfInBounds member with old | rfl
    · exact poppedPlaced.cells content old
    · rw [store]
      exact valuePlaced

/-- Executing an instruction keeps the boxes in their places, if constants are
scalars and slots with boxes are not accessed directly. -/
theorem execute
    (placed : machine.Placed)
    (frames : machine.frames = frame :: below)
    {instruction : Instruction} {flow : Flow}
    (scalar : instruction.opcode = .loadConst → ∀ value,
      frame.template.constant? instruction.byte = some value → value.isScalar)
    (direct : instruction.opcode = .loadLocal ∨ instruction.opcode =
      .storeLocal → instruction.byte ∉ frame.template.heapSlots)
    (executed : machine.execute instruction = .ok flow) :
    machine.PlacesFlow flow := by
  have framePlaced := placed.newest frames
  have replacing {changed : Frame}
      (changedPlaced : changed.Placed machine.store.cells.size) :
      machine.Places (machine.setTop changed) := by
    rw [setTop_eq frames]
    exact placed.replace_places frames changedPlaced
  cases execute_inversion frames executed with
  | constant operation found pushes =>
      exact placed.push_places
        ((Value.Made.stable _).kept.of_isScalar (scalar operation _ found))
          pushes
  | simple plain pushes =>
      obtain rfl | ⟨truth, rfl⟩ := plain
      · exact placed.push_places .nil pushes
      · exact placed.push_places (.bool truth) pushes
  | loadLocal operation reads pushes =>
      unfold Frame.slot at reads
      split at reads
      next held present =>
        cases reads
        refine placed.push_places (framePlaced.direct _ _ ?_ present) pushes
        intro slot heap same
        exact direct (.inl operation) (UInt8.toNat_inj.1 same ▸ heap)
      next => cases reads
  | storeLocal operation pops stores =>
      unfold Frame.pop at pops
      split at pops
      · cases pops
      next first stack stackEq =>
        cases pops
        unfold Frame.setSlot at stores
        split at stores
        · cases stores
          refine replacing (framePlaced.store ?_ ?_ (direct (.inr operation)))
          · exact fun held member =>
              framePlaced.stack held (stackEq ▸ List.mem_cons_of_mem _ member)
          · exact framePlaced.stack _ (stackEq ▸ List.mem_cons_self)
        · cases stores
  | loadHeap loads => exact placed.loadHeap loads
  | storeHeap stores => exact placed.storeHeap stores
  | loadGlobal found pushes =>
      obtain ⟨entry, member, rfl⟩ := Dictionary.mem_of_find? found
      exact placed.push_places (placed.globals entry member) pushes
  | storeGlobal name pops =>
      obtain ⟨valuePlaced, poppedPlaced, store, count⟩ := placed.pop pops
      refine .of_no_frame
        ⟨poppedPlaced.frames, poppedPlaced.handlers, ?_, poppedPlaced.methods,
        poppedPlaced.cells⟩ (by simp [store]) (Nat.le_of_eq count)
      intro entry member
      rcases Dictionary.mem_insert member with rfl | old
      · rw [← store] at valuePlaced
        exact valuePlaced
      · exact poppedPlaced.globals entry old
  | pop pops =>
      obtain ⟨_, poppedPlaced, store, count⟩ := placed.pop pops
      exact .of_no_frame poppedPlaced (by simp [store]) (Nat.le_of_eq count)
  | swap stack =>
      refine replacing (framePlaced.proceed fun value member => ?_)
      refine framePlaced.stack value (stack ▸ ?_)
      simp only [List.mem_cons] at member ⊢
      tauto
  | jump | loop => exact replacing (framePlaced.proceed framePlaced.stack)
  | fallThrough pops | branch pops =>
      unfold Frame.pop at pops
      split at pops
      · cases pops
      next first stack stackEq =>
        cases pops
        exact replacing (framePlaced.proceed fun held member =>
          framePlaced.stack held (stackEq ▸ List.mem_cons_of_mem _ member))
  | call calls => exact placed.call calls
  | finish returns => exact placed.returnValue returns
  | operator operates =>
      exact (Handles.carries machine).binaryOperator placed.handles operates
  | invert pops pushes =>
      obtain ⟨_, poppedPlaced, store, count⟩ := placed.pop pops
      exact (poppedPlaced.push_places (.bool _) pushes).of_before count
        (by rw [store])
  | negate negates =>
      exact (Handles.carries machine).negate placed.handles negates
  | makeClosure makes =>
      obtain ⟨closure, closurePlaced, _, _, _, rfl⟩ :=
        placed.makeClosure frames makes
      exact ((placed.take 1).replace_places frames
        (framePlaced.given (.closure closurePlaced))).of_before rfl rfl
  | setHandler registers => exact placed.setHandler registers
  | perform performs =>
      exact (Handles.carries machine).perform placed.handles performs
  | popHandlers =>
      refine .of_no_frame (placed.unwind (fun _ live => live) ?_)
        (Nat.le_refl _) (Nat.le_refl _)
      exact fun handler member =>
        placed.handlers handler (List.mem_of_mem_drop member)
  | comment => exact .of_no_frame placed (Nat.le_refl _) (Nat.le_refl _)

end Placed

end Machine

end EffectScript
