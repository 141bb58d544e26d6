import EffectScript.Machine.Step
import EffectScript.Proofs.Change
import EffectScript.Proofs.TwinValues

/-!
# Machines in lockstep

Two machines are *twins* when their frames run twins and stand at places where
the codes meet, and when everything else in them is the same up to twins.
Handlers and links keep offsets into the code of older frames, so each of them
is compared by the alignment of the frame that it belongs to.

The lines of two frames agree after an instruction is fetched, but a jump may
lead to a place where the lines before it differ. So only the frames below the
newest one have to agree in their lines, and the newest one as well while an
instruction is executed. Then also every handler has to be of a live frame;
otherwise it could land in the code of a frame that does not exist yet.
-/

namespace EffectScript

open Outcome

/-! ## Failures that say nothing -/

/-- A fault other than too many frames. The second machine need not share it. -/
def Failure.Excused : Failure → Prop
  | .exception _ | .unhandled _ _ | .fault (.frameOverflow _) => False
  | .fault _ => True

theorem Failure.excused_withCalls
    (failure : Failure) (calls : List TraceEntry) :
    (failure.withCalls calls).Excused ↔ failure.Excused := by
  cases failure <;> exact Iff.rfl

/-- The second computation does what the first one does, unless that one has an
excuse. -/
abbrev Tracks {α β : Type}
    (good : α → β → Prop) (first : Except Failure α)
    (second : Except Failure β) : Prop :=
  Follows Failure.Excused good first second

/-! ## Alignments of frames -/

/-- The alignment of the frame with an index, which is the count of frames older
than it. -/
def alignmentAt? (alignments : List Alignment) (index : Nat) :
    Option Alignment :=
  alignments.reverse[index]?

section Indices

variable {alignment other : Alignment} {alignments : List Alignment}
    {index count : Nat}

@[simp]
theorem alignmentAt?_newest :
    alignmentAt? (alignment :: alignments) alignments.length =
      some alignment := by
  simp [alignmentAt?]

theorem alignmentAt?_cons_of_lt (older : index < alignments.length) :
    alignmentAt? (alignment :: alignments) index =
      alignmentAt? alignments index := by
  rw [alignmentAt?, List.reverse_cons,
    List.getElem?_append_left (by simpa using older), alignmentAt?]

theorem lt_of_alignmentAt?
    (found : alignmentAt? alignments index = some other) :
    index < alignments.length := by
  simpa using (List.getElem?_eq_some_iff.1 found).1

theorem alignmentAt?_isSome (inside : index < alignments.length) :
    ∃ alignment, alignmentAt? alignments index = some alignment :=
  ⟨_, List.getElem?_eq_getElem (by simpa using inside)⟩

/-- Older frames have the same alignments whatever newer frames there are. -/
theorem alignmentAt?_of_oldest
    (found : alignmentAt? (oldest count alignments) index = some other) :
    alignmentAt? alignments index = some other := by
  have inside := lt_of_alignmentAt? found
  rw [← List.take_append_drop (alignments.length - count) alignments,
    alignmentAt?, List.reverse_append,
    List.getElem?_append_left (by simpa [oldest] using inside)]
  exact found

/-- The frame with an index is the newest one when the frames newer than it are
gone. -/
theorem oldest_succ_eq_cons
    (found : alignmentAt? alignments index = some other) :
    ∃ older, oldest (index + 1) alignments = other :: older ∧
      older.length = index := by
  have inside := lt_of_alignmentAt? found
  have position : alignments.length - (index + 1) <
      alignments.length := by omega
  refine ⟨alignments.drop (alignments.length - (index + 1) + 1), ?_, by
    simp; omega⟩
  rw [oldest, List.drop_eq_getElem_cons position]
  rw [alignmentAt?, List.getElem?_reverse inside,
    List.getElem?_eq_getElem (by omega)] at found
  cases found
  congr 2
  omega

end Indices

/-! ## Twin machines -/

/-- Handlers that do the same and land at places where the codes of their frame
meet. -/
structure Handler.Twin (alignments : List Alignment) (first second : Handler) :
    Prop where
  effect : second.effect = first.effect
  closure : first.closure.Twin second.closure
  frame : second.frame = first.frame
  depth : second.depth = first.depth
  target : ∀ alignment, alignmentAt? alignments first.frame = some alignment →
    alignment.Land first.target second.target

/-- Links to one effect, performed by the newest of the frames with the given
alignments. -/
structure EffectLink.Twin
    (alignments : List Alignment)
    (first second : EffectLink) : Prop where
  resumeInto : second.resumeInto = first.resumeInto
  handlerFrame : second.handlerFrame = first.handlerFrame
  depth : second.depth = first.depth
  groupStart : second.groupStart = first.groupStart
  performer : first.resumeInto + 1 = alignments.length
  target : ∃ alignment, alignmentAt? alignments first.handlerFrame =
      some alignment ∧
    alignment.Land first.target second.target
  stash : List.Forall₂ (Handler.Twin alignments) first.stash second.stash

/-- Frames that run twins from a place where the codes meet, above frames with
the given alignments. -/
structure Frame.Twin
    (alignment : Alignment) (older : List Alignment)
    (first second : Frame) : Prop where
  closure : first.closure.Twin second.closure
  aligned : Template.Aligned alignment first.template second.template
  stack : List.Forall₂ Value.Twin first.stack second.stack
  slots : List.Forall₂ Value.Twin first.slots second.slots
  meet : alignment.Meet first.ip second.ip
  link : Option.Rel (EffectLink.Twin older) first.link second.link

/-- Frames that are twins one by one. The newest ones agree in their lines if
that is asked for. -/
inductive FramesTwin : Bool → List Alignment → List Frame → List Frame → Prop
  | nil {strict : Bool} : FramesTwin strict [] [] []
  | cons {strict : Bool} {alignment : Alignment} {older : List Alignment}
      {frame other : Frame}
      {below beneath : List Frame}
        (newest : Frame.Twin alignment older frame other)
      (line : strict → other.traceEntry = frame.traceEntry)
      (rest : FramesTwin true older below beneath) :
      FramesTwin strict (alignment :: older) (frame :: below) (other :: beneath)

/-- Stores that hold twins in the same cells. -/
structure Store.Twin (first second : Store) : Prop where
  cells : List.Forall₂ Value.Twin first.cells.toList second.cells.toList
  unused : second.unused = first.unused

namespace Machine

/-- What outlives the calls is the same up to twins. -/
structure SameWorld (first second : Machine) : Prop where
  limits : second.limits = first.limits
  globals : List.Forall₂ EntryTwin first.globals second.globals
  methods : List.Forall₂ EntryTwin first.methods second.methods
  store : first.store.Twin second.store
  outlet : second.outlet = first.outlet

/-- Machines that do the same from now on. Between two instructions they need
not be strict. -/
structure Twin
    (strict : Bool)
    (alignments : List Alignment)
    (first second : Machine) : Prop extends first.SameWorld second where
  frames : FramesTwin strict alignments first.frames second.frames
  handlers : List.Forall₂ (Handler.Twin alignments) first.handlers
    second.handlers
  live : strict → ∀ handler ∈ first.handlers, handler.frame < alignments.length

end Machine

section Related

variable {α β : Type} {related : α → β → Prop} {first : List α}
    {second : List β}

theorem forall₂_oldest (all : List.Forall₂ related first second) (count : Nat) :
    List.Forall₂ related (oldest count first) (oldest count second) := by
  simp only [oldest, ← all.length_eq]
  exact List.forall₂_drop _ all

theorem forall₂_imp_of_mem {better : α → β → Prop}
    (all : List.Forall₂ related first second)
    (weaker : ∀ entry ∈ first, ∀ other, related entry other →
      better entry other) :
    List.Forall₂ better first second := by
  induction all with
  | nil => exact .nil
  | cons head _ inner =>
      exact .cons (weaker _ List.mem_cons_self _ head)
        (inner fun entry member => weaker entry (List.mem_cons_of_mem _ member))

theorem forall₂_one
    (all : List.Forall₂ related first second)
    (one : first.length = 1) :
    ∃ entry other, first = [entry] ∧ second = [other] ∧
      related entry other := by
  obtain ⟨entry, rfl⟩ := List.length_eq_one_iff.1 one
  cases all with
  | cons head tail =>
      cases tail
      exact ⟨_, _, rfl, rfl, head⟩

theorem forall₂_two
    (all : List.Forall₂ related first second)
    (two : first.length = 2) :
    ∃ entry other next another, first = [entry, next] ∧
      second = [other, another] ∧
      related entry other ∧ related next another := by
  cases all with
  | nil => cases two
  | cons head tail =>
      obtain ⟨next, another, rfl, rfl, pair⟩ :=
        forall₂_one tail (Nat.succ.inj two)
      exact ⟨_, _, _, _, rfl, rfl, head, pair⟩

theorem forall₂_three
    (all : List.Forall₂ related first second)
    (three : first.length = 3) :
    ∃ entry other next another last final, first = [entry, next, last] ∧
      second = [other, another, final] ∧ related entry other ∧
      related next another ∧
      related last final := by
  cases all with
  | nil => cases three
  | cons head tail =>
      obtain ⟨next, another, last, final, rfl, rfl, pairs⟩ :=
        forall₂_two tail (Nat.succ.inj three)
      exact ⟨_, _, _, _, _, _, rfl, rfl, head, pairs⟩

theorem forall₂_set {value : α} {other : β}
    (all : List.Forall₂ related first second)
    (index : Nat)
    (pair : related value other) :
    List.Forall₂ related (first.set index value) (second.set index other) := by
  induction all generalizing index with
  | nil => exact .nil
  | cons head tail inner =>
      cases index with
      | zero => exact .cons pair tail
      | succ index => exact .cons head (inner index)

end Related

/-! ## Stores -/

namespace Store.Twin

variable {store other : Store} {value partner : Value}

theorem size_eq (twin : store.Twin other) :
    other.cells.size = store.cells.size := by
  simpa using twin.cells.length_eq.symm

theorem read (twin : store.Twin other) (cell : Nat) :
    (store.read cell).Twin (other.read cell) := by
  unfold Store.read
  rw [← Array.getElem?_toList, ← Array.getElem?_toList]
  rcases rel_cases (forall₂_getElem? twin.cells cell)
    with ⟨held, there⟩ | ⟨_, _, held, there, twins⟩
  · rw [held, there]
    exact .nil
  · rw [held, there]
    exact twins

theorem write
    (twin : store.Twin other) (cell : Nat)
    (twins : value.Twin partner) :
    (store.write cell value).Twin (other.write cell partner) := by
  refine ⟨?_, twin.unused⟩
  simp only [Store.write, Array.toList_setIfInBounds]
  exact forall₂_set twin.cells cell twins

theorem newBox (twin : store.Twin other) (twins : value.Twin partner) :
    (other.newBox partner).1 = (store.newBox value).1 ∧
      (store.newBox value).2.Twin (other.newBox partner).2 := by
  refine ⟨twin.size_eq, ?_, twin.unused⟩
  simp only [Store.newBox, Array.toList_push]
  exact List.rel_append twin.cells (.cons twins .nil)

theorem take (twin : store.Twin other) (count : Nat) :
    (store.take count).Twin (other.take count) :=
  ⟨twin.cells, congrArg (· + count) twin.unused⟩

theorem boxDisplay_eq (twin : store.Twin other) (depth : Nat) :
    other.boxDisplay depth = store.boxDisplay depth := by
  induction depth with
  | zero => rfl
  | succ depth inner =>
      funext cell
      rw [Store.boxDisplay, Store.boxDisplay, inner]
      exact (twin.read cell).reprWith_eq _

theorem display_eq (twin : store.Twin other) (twins : value.Twin partner) :
    partner.display other = value.display store := by
  unfold Value.display
  rw [twin.size_eq, twin.boxDisplay_eq, twins.displayWith_eq]

end Store.Twin

/-! ## Frames -/

namespace FramesTwin

variable {strict : Bool} {alignments : List Alignment}
    {frames others : List Frame}

theorem length (twins : FramesTwin strict alignments frames others) :
    frames.length = alignments.length ∧ others.length = alignments.length := by
  induction twins with
  | nil => exact ⟨rfl, rfl⟩
  | cons _ _ _ inner => simp [inner]

/-- Frames that agree in all lines have one trace. -/
theorem trace_eq (twins : FramesTwin true alignments frames others) :
    others.map Frame.traceEntry = frames.map Frame.traceEntry := by
  generalize all : true = strict at twins
  induction twins with
  | nil => rfl
  | cons _ line _ inner =>
      rw [List.map_cons, List.map_cons, line all.symm, inner rfl]

theorem relax
    (twins : FramesTwin true alignments frames others)
    (strict : Bool) :
    FramesTwin strict alignments frames others := by
  cases twins with
  | nil => exact .nil
  | cons newest line rest => exact .cons newest (fun _ => line rfl) rest

theorem loosen (twins : FramesTwin strict alignments frames others) :
    FramesTwin false alignments frames others := by
  cases twins with
  | nil => exact .nil
  | cons newest _ rest => exact .cons newest (absurd · Bool.false_ne_true) rest

theorem drop
    (twins : FramesTwin strict alignments frames others)
    (count : Nat) :
    FramesTwin strict (alignments.drop count) (frames.drop count)
      (others.drop count) := by
  induction count generalizing strict alignments frames others with
  | zero => exact twins
  | succ count inner =>
      cases twins with
      | nil => exact .nil
      | cons _ _ rest => exact inner (rest.relax strict)

theorem oldest
    (twins : FramesTwin strict alignments frames others)
    (count : Nat) :
    FramesTwin strict (oldest count alignments) (oldest count frames)
      (oldest count others) := by
  obtain ⟨framesLength, othersLength⟩ := twins.length
  simp only [EffectScript.oldest, framesLength, othersLength]
  exact twins.drop _

/-- The newest links of the frames belong to one effect. -/
theorem findLink (twins : FramesTwin strict alignments frames others) :
    (frames.findSome? Frame.link = none ∧ others.findSome? Frame.link = none) ∨
      ∃ link other newer older, frames.findSome? Frame.link = some link ∧
        others.findSome? Frame.link = some other ∧ alignments = newer ++ older ∧
        EffectLink.Twin older link other := by
  induction twins with
  | nil => exact .inl ⟨rfl, rfl⟩
  | @cons _ alignment older frame other below beneath newest _ _ inner =>
      simp only [List.findSome?_cons]
      rcases rel_cases newest.link
        with ⟨held, there⟩ | ⟨link, partner, held, there, twins⟩
      · rw [held, there]
        rcases inner with none | ⟨link, partner, newer, rest, found,
          alike, rfl, twins⟩
        · exact .inl none
        · exact .inr ⟨link, partner, alignment :: newer, rest, found,
            alike, rfl, twins⟩
      · rw [held, there]
        exact .inr ⟨link, partner, [alignment], older, rfl, rfl, rfl, twins⟩

end FramesTwin

namespace Handler.Twin

variable {alignment : Alignment} {alignments : List Alignment}
    {first second : Handler} {count : Nat}

/-- A handler does not land in the code of a newer frame. -/
theorem push
    (twin : Handler.Twin alignments first second)
    (live : first.frame < alignments.length)
    (alignment : Alignment) :
    Handler.Twin (alignment :: alignments) first second :=
  { twin with
    target := fun other found => twin.target other (by
      rwa [alignmentAt?_cons_of_lt live] at found) }

theorem oldest (twin : Handler.Twin alignments first second) (count : Nat) :
    Handler.Twin (oldest count alignments) first second :=
  { twin with target :=
    fun other found => twin.target other (alignmentAt?_of_oldest found) }

theorem pop (twin : Handler.Twin (alignment :: alignments) first second) :
    Handler.Twin alignments first second :=
  { twin with
    target := fun other found => twin.target other (by
      rwa [alignmentAt?_cons_of_lt (lt_of_alignmentAt? found)]) }

end Handler.Twin

namespace Machine

variable {strict : Bool} {alignment : Alignment}
    {older alignments : List Alignment} {first second : Machine}
    {frame other : Frame} {below beneath : List Frame}

namespace Twin

/-- Machines that are strict need not be so. -/
theorem relax (twin : Twin strict alignments first second) :
    Twin false alignments first second :=
  { twin with frames := twin.frames.loosen, live :=
    (absurd · Bool.false_ne_true) }

/-- The newest frames and those below them. -/
theorem newest
    (twin : Twin strict (alignment :: older) first second)
    (frames : first.frames = frame :: below)
    (others : second.frames = other :: beneath) :
    Frame.Twin alignment older frame other ∧
    (strict → other.traceEntry = frame.traceEntry) ∧
      FramesTwin true older below beneath := by
  have twins := twin.frames
  rw [frames, others] at twins
  cases twins with
  | cons newest line rest => exact ⟨newest, line, rest⟩

/-- Where there is an alignment, there are frames. -/
theorem exists_newest (twin : Twin strict (alignment :: older) first second) :
    ∃ frame below other beneath, first.frames = frame :: below ∧
      second.frames = other :: beneath := by
  have twins := twin.frames
  generalize first.frames = frames at twins ⊢
  generalize second.frames = others at twins ⊢
  cases twins with
  | cons newest line rest => exact ⟨_, _, _, _, rfl, rfl⟩

/-- Other frames may take the place of the newest ones. -/
theorem replace {changed : Frame} {another : Frame}
    (twin : Twin strict (alignment :: older) first second)
    (frames : first.frames = frame :: below)
    (others : second.frames = other :: beneath)
    (newest : Frame.Twin alignment older changed another)
    (line : strict → another.traceEntry = changed.traceEntry) :
    Twin strict (alignment :: older) { first with frames := changed :: below }
      { second with frames := another :: beneath } :=
  { twin with frames := .cons newest line (twin.newest frames others).2.2 }

end Twin

theorem Twin.withStack {stack rest : List Value}
    (twin : Twin strict (alignment :: older) first second)
    (frames : first.frames = frame :: below)
    (others : second.frames = other :: beneath)
    (stackTwins : List.Forall₂ Value.Twin stack rest) :
    Twin strict (alignment :: older)
      { first with frames := { frame with stack := stack } :: below }
      { second with frames := { other with stack := rest } :: beneath } := by
  obtain ⟨newest, line, _⟩ := twin.newest frames others
  exact twin.replace frames others { newest with stack := stackTwins } line

/-! ## The operand stack -/

section Stack

variable {α β : Type} {good : α → β → Prop} {value partner : Value}

/-- Pushing finds both operand stacks full or none. -/
theorem Twin.push_cases
    (twin : Twin strict (alignment :: older) first second)
    (frames : first.frames = frame :: below)
    (partners : second.frames = other :: beneath)
    (value partner : Value) :
    (∃ failure, first.push value = .error failure ∧ failure.Excused) ∨
      first.push value =
          .ok { first with frames := frame.given value :: below } ∧
        second.push partner =
          .ok { second with frames := other.given partner :: beneath } := by
  obtain ⟨newest, _, _⟩ := twin.newest frames partners
  have capacity : second.limits.stackCapacity = first.limits.stackCapacity := by
    rw [twin.limits]
  unfold Machine.push
  rw [top_eq frames, top_eq partners, ok_bind, ok_bind]
  unfold Frame.push
  rw [capacity, ← newest.stack.length_eq]
  split
  · simp only [ok_bind, setTop_eq frames, setTop_eq partners]
    exact .inr ⟨rfl, rfl⟩
  · exact .inl ⟨_, rfl, trivial⟩

theorem Twin.push_bind {rest : Machine → Except Failure α}
    {others : Machine → Except Failure β}
    (twin : Twin strict (alignment :: older) first second)
    (frames : first.frames = frame :: below)
    (partners : second.frames = other :: beneath)
    (next : Tracks good
      (rest { first with frames := frame.given value :: below })
        (others { second with frames := other.given partner :: beneath })) :
    Tracks good (first.push value >>= rest)
      (second.push partner >>= others) := by
  rcases twin.push_cases frames partners value partner
    with ⟨failure, fails, excused⟩ | ⟨here, there⟩
  · rw [fails]
    exact .inl excused
  · rw [here, there]
    exact next

theorem Twin.push
    (twin : Twin strict alignments first second)
    (values : value.Twin partner) :
    Tracks (Twin strict alignments) (first.push value)
      (second.push partner) := by
  cases alignments with
  | nil =>
      have none : first.frames = [] :=
        List.length_eq_zero_iff.1 twin.frames.length.1
      unfold Machine.push Machine.top
      rw [none]
      exact .inl trivial
  | cons alignment older =>
      obtain ⟨frame, below, other, beneath, frames, others⟩ :=
        twin.exists_newest
      rcases twin.push_cases frames others value partner
        with ⟨failure, fails, excused⟩ | ⟨here, there⟩
      · rw [fails]
        exact .inl excused
      · rw [here, there]
        exact .ok
          (twin.withStack frames others
            (.cons values (twin.newest frames others).1.stack))

/-- Popping gives twins. -/
theorem Twin.pop_bind
    {rest : Value × Machine → Except Failure α}
    {others : Value × Machine → Except Failure β}
    (twin : Twin strict (alignment :: older) first second)
    (frames : first.frames = frame :: below)
    (partners : second.frames = other :: beneath)
    (next : ∀ value partner stack remaining, value.Twin partner →
      List.Forall₂ Value.Twin stack remaining →
      Tracks good
        (rest (value, { first with frames :=
          { frame with stack := stack } :: below }))
        (others (partner, { second with frames :=
          { other with stack := remaining } :: beneath }))) :
    Tracks good (first.pop >>= rest) (second.pop >>= others) := by
  obtain ⟨newest, _, _⟩ := twin.newest frames partners
  have stackTwins := newest.stack
  cases held : frame.stack with
  | nil =>
      rw [held] at stackTwins
      unfold Machine.pop Frame.pop
      rw [top_eq frames, ok_bind]
      simp only [held]
      exact .inl trivial
  | cons value stack =>
      cases there : other.stack with
      | nil =>
          rw [held, there] at stackTwins
          cases stackTwins
      | cons partner remaining =>
          rw [held, there] at stackTwins
          rw [pop_eq frames held, pop_eq partners there, ok_bind, ok_bind]
          cases stackTwins with
          | cons head tail => exact next value partner stack remaining head tail

end Stack

/-! ## Slots and pools -/

section Slots

variable {slot index : UInt8}

theorem slot_twin
    (twin : Frame.Twin alignment older frame other)
    (slot : UInt8) :
    Tracks Value.Twin (frame.slot slot) (other.slot slot) := by
  unfold Frame.slot
  rcases rel_cases (forall₂_getElem? twin.slots slot.toNat) with
    ⟨held, there⟩ | ⟨value, partner, held, there, twins⟩
  · rw [held, there]
    exact .inl trivial
  · rw [held, there]
    exact .ok twins

theorem setSlot_twin {value partner : Value}
    (twin : Frame.Twin alignment older frame other)
    (slot : UInt8)
    (twins : value.Twin partner) :
    Tracks (Frame.Twin alignment older) (frame.setSlot slot value)
      (other.setSlot slot partner) := by
  unfold Frame.setSlot
  rw [← twin.slots.length_eq]
  split
  · exact .ok { twin with slots := forall₂_set twin.slots _ twins }
  · exact .inl trivial

theorem operandName_twin {template another : Template}
    (alike : template.Alike another)
    (index : UInt8) :
    Tracks (fun name partner => partner = name) (operandName template index)
      (operandName another index) := by
  unfold operandName Template.name?
  rw [alike.names, alike.name]
  split
  · exact .ok rfl
  · exact .inl trivial

theorem constant?_twin {template another : Template}
    (twin : template.Twin another)
    (index : UInt8) :
    Option.Rel Value.Twin (template.constant? index)
      (another.constant? index) := by
  cases twin with
  | same =>
      cases template.constant? index with
      | none => exact .none
      | some value => exact .some (.refl value)
  | written alike code constants functions =>
      unfold Template.constant?
      rcases rel_cases (forall₂_getElem? constants index.toNat) with
        ⟨held, there⟩ | ⟨value, partner, held, there, same⟩
      · rw [held, there]
        exact .none
      · rw [held, there]
        rcases same with ⟨_, rfl⟩ | ⟨identity, inner, body, rfl, rfl⟩
        · exact .some (.refl _)
        · exact .some (.function identity (functions _ _ _ _ _ held there))

end Slots

/-! ## New frames -/

section Opening

variable {slots others arguments partners : List Value}

theorem placeCaptures_twin
    (owner : String)
    (captures : List (UInt8 × Nat))
    (all : List.Forall₂ Value.Twin slots others) :
    Tracks (List.Forall₂ Value.Twin) (placeCaptures owner captures slots)
      (placeCaptures owner captures others) := by
  induction captures generalizing slots others with
  | nil => exact .ok all
  | cons capture captures inner =>
      obtain ⟨slot, cell⟩ := capture
      unfold placeCaptures
      rw [← all.length_eq]
      split
      · exact inner (forall₂_set all _ (.box cell))
      · exact .inl trivial

theorem boxSlots_twin
    (owner : String) (chosen : List UInt8)
    {store another : Store}
    (all : List.Forall₂ Value.Twin slots others)
    (stores : store.Twin another) :
    Tracks (fun boxed partner => List.Forall₂ Value.Twin boxed.1 partner.1 ∧
      boxed.2.Twin partner.2)
      (boxSlots owner chosen slots store)
        (boxSlots owner chosen others another) := by
  induction chosen generalizing slots others store another with
  | nil => exact .ok ⟨all, stores⟩
  | cons slot chosen inner =>
      unfold boxSlots
      rcases rel_cases (forall₂_getElem? all slot.toNat) with
        ⟨held, there⟩ | ⟨value, partner, held, there, twins⟩
      · rw [held, there]
        exact .inl trivial
      · obtain ⟨cellEq, boxed⟩ := stores.newBox twins
        simp only [held, there, cellEq]
        exact inner (forall₂_set all _ (.box _)) boxed

theorem initialSlots_twin {closure another : Closure}
    (twin : closure.Twin another)
    (all : List.Forall₂ Value.Twin arguments partners) :
    List.Forall₂ Value.Twin (closure.initialSlots arguments)
      (another.initialSlots partners) := by
  have given : List.Forall₂ Value.Twin (.closure closure :: arguments)
      (.closure another :: partners) :=
    .cons (Value.Twin.closure_iff.2 ⟨another, rfl, twin⟩) all
  simp only [Closure.initialSlots, twin.templates.alike.locals, given.length_eq]
  exact List.rel_append given (List.forall₂_same.2 fun value _ => .refl value)

/-- Twins get twin frames, which stand at the start of the codes. -/
theorem Twin.openFrame {closure another : Closure}
    (twin : Twin true alignments first second)
    (closures : closure.Twin another)
    (all : List.Forall₂ Value.Twin arguments partners) :
    Tracks
      (fun opened partner => ∃ alignment,
        Twin false (alignment :: alignments) opened partner)
      (first.openFrame closure arguments)
        (second.openFrame another partners) := by
  have alike := closures.templates.alike
  obtain ⟨alignment, aligned⟩ := closures.templates.aligned
  obtain ⟨framesLength, othersLength⟩ := twin.frames.length
  have most : second.limits.maxFrames = first.limits.maxFrames := by
    rw [twin.limits]
  simp only [Machine.openFrame, most, framesLength, othersLength,
    closures.boxes, alike.name, alike.capturesInner, alike.heapSlots]
  split
  · refine (placeCaptures_twin _ _ (initialSlots_twin closures all)).bind ?_
    intro captured placed slotsTwin
    refine (boxSlots_twin _ _ slotsTwin twin.store).bind ?_
    rintro ⟨slots, store⟩ ⟨boxed, another⟩ ⟨boxedTwin, stores⟩
    refine .ok
      ⟨alignment,
        { twin with store := stores, frames := ?_, handlers := ?_, live :=
          (absurd · Bool.false_ne_true) }⟩
    · exact .cons ⟨closures, aligned, .nil, boxedTwin, alignment.meet_zero,
        .none⟩ (absurd · Bool.false_ne_true) twin.frames
    · exact forall₂_imp_of_mem twin.handlers fun handler member _ twins =>
        twins.push (twin.live rfl handler member) alignment
  · exact .error _

end Opening

/-! ## Native functions -/

/-- Machines that are twins for some alignments of their frames. -/
def Onward (first second : Machine) : Prop :=
  ∃ alignments, Twin false alignments first second

/-- What a native function gives: twins, and machines that go on as twins. -/
def NativeTwin (result partner : Value × Machine) : Prop :=
  result.1.Twin partner.1 ∧ result.2.Onward partner.2

theorem Twin.onward (twin : Twin strict alignments first second) :
    first.Onward second :=
  ⟨alignments, twin.relax⟩

theorem Twin.take (twin : Twin strict alignments first second) (count : Nat) :
    Twin strict alignments (first.take count) (second.take count) :=
  { twin with store := twin.store.take count }

section Natives

variable {arguments partners : List Value}
    {left right value another partner : Value}

theorem agree_refl (result : Except Exception Value) :
    Agree Value.Twin result result := by
  cases result with
  | ok value => exact .ok (.refl value)
  | error exception => exact .error exception

theorem Twin.print
    (twin : Twin strict alignments first second)
    (all : List.Forall₂ Value.Twin arguments partners) :
    Agree NativeTwin (Native.print first arguments)
      (Native.print second partners) := by
  have texts : (partners.map fun value => value.display second.store) =
      arguments.map fun value => value.display first.store :=
    map_eq_map_of_forall₂ all fun _ _ twins => twin.store.display_eq twins
  unfold Native.print
  rw [texts, twin.outlet]
  simp only
  split
  next outlet written =>
    exact .ok ⟨.nil, alignments, { twin.relax with outlet := rfl }⟩
  next reason refused => exact .error _

theorem Twin.method
    (twin : Twin strict alignments first second)
    {typeName operatorName : Value}
    (types : typeName.Twin left)
    (names : operatorName.Twin right)
    (values : value.Twin partner) :
    Agree Onward (Native.method first typeName operatorName value)
      (Native.method second left right partner) := by
  unfold Native.method
  rw [Value.asText_eq types, Value.asText_eq names, values.isMethod_eq,
    values.typeName_eq]
  cases typeName.asText "method" with
  | error exception => exact .error _
  | ok type =>
      cases operatorName.asText "method" with
      | error exception => exact .error _
      | ok name =>
          simp only [ok_bind]
          split
          · exact .error _
          · split
            · exact .ok ⟨alignments, { twin.relax with
                methods := MethodTable.define_twin twin.methods _ _ values }⟩
            · exact .error _

/-- Both machines go back into frames that are twins. -/
theorem Twin.resume (twin : Twin strict alignments first second) :
    Agree Onward first.resume second.resume := by
  unfold Machine.resume
  rcases twin.frames.findLink
    with ⟨held, there⟩ | ⟨link, partner, newer, older, held, there, rfl, twins⟩
  · rw [held, there]
    exact .error _
  · rw [held, there]
    have kept : oldest (link.resumeInto + 1) (newer ++ older) = older := by
      rw [twins.performer, oldest_append]
    refine .ok ⟨oldest (link.resumeInto + 1) (newer ++ older), { twin.relax with
      frames := ?_, handlers := ?_, live := (absurd · Bool.false_ne_true) }⟩
    · simp only [twins.resumeInto]
      exact twin.relax.frames.oldest _
    · simp only [twins.groupStart]
      refine List.rel_append (kept.symm ▸ twins.stash) ?_
      exact (forall₂_oldest twin.handlers _).imp fun _ _ handlers =>
        handlers.oldest _

/-- Native functions do the same to twins. -/
theorem Twin.callNative
    (twin : Twin strict alignments first second)
    (builtin : Builtin)
    (all : List.Forall₂ Value.Twin arguments partners) :
    Agree NativeTwin (builtin.call first arguments)
      (builtin.call second partners) := by
  have unused := twin.store.unused
  have here {result : Except Exception Value} {other : Except Exception Value}
      (agree : Agree Value.Twin result other) :
      Agree NativeTwin (do return (← result, first))
        (do return (← other, second)) :=
    agree.bind fun _ _ values => .ok ⟨values, twin.onward⟩
  unfold Builtin.call Builtin.checkArity
  rw [← all.length_eq]
  split
  next accepted =>
    simp only [ok_bind]
    have taken {count : Nat} (arity : builtin.arity = .exactly count) :
        arguments.length = count := by
      rw [arity] at accepted
      exact beq_iff_eq.1 accepted
    cases builtin with
    | print => exact twin.print all
    | list =>
        simp only [Builtin.invoke, unused, ← all.length_eq]
        exact .ok
          ⟨Value.Twin.list_iff.2 ⟨_, rfl, Chain.prepend_twin _ all .nil⟩,
            (twin.take _).onward⟩
    | map =>
        simp only [Builtin.invoke, unused, ← all.length_eq]
        split
        · refine (Native.pairs_twin all).bind
            fun entries others entriesTwin => ?_
          exact .ok
            ⟨Value.Twin.map_iff.2
              ⟨_, rfl, Dictionary.ofEntries_twin entriesTwin⟩,
            (twin.take _).onward⟩
        · exact .error _
    | len =>
        obtain ⟨value, partner, rfl, rfl, values⟩ := forall₂_one all (taken rfl)
        exact here (Native.len_eq values ▸ agree_refl _)
    | str =>
        obtain ⟨value, partner, rfl, rfl, values⟩ := forall₂_one all (taken rfl)
        simp only [Builtin.invoke, twin.store.display_eq values]
        exact .ok ⟨.str _, twin.onward⟩
    | head =>
        obtain ⟨value, partner, rfl, rfl, values⟩ := forall₂_one all (taken rfl)
        exact here (Native.head_twin values)
    | tail =>
        obtain ⟨value, partner, rfl, rfl, values⟩ := forall₂_one all (taken rfl)
        exact here (Native.tail_twin values)
    | typeOf =>
        obtain ⟨value, partner, rfl, rfl, values⟩ := forall₂_one all (taken rfl)
        simp only [Builtin.invoke, values.typeName_eq]
        exact .ok ⟨.str _, twin.onward⟩
    | raise =>
        obtain ⟨value, partner, rfl, rfl, values⟩ := forall₂_one all (taken rfl)
        simp only [Builtin.invoke, Native.raised_eq values]
        exact .error _
    | resume =>
        obtain ⟨value, partner, rfl, rfl, values⟩ := forall₂_one all (taken rfl)
        exact twin.resume.bind fun _ _ onward => .ok ⟨values, onward⟩
    | nth =>
        obtain ⟨list, other, index, another, rfl, rfl, lists, indices⟩ :=
          forall₂_two all (taken rfl)
        exact here (Native.nth_twin lists indices)
    | cons =>
        obtain ⟨value, partner, list, other, rfl, rfl, values, lists⟩ :=
          forall₂_two all (taken rfl)
        simp only [Builtin.invoke, unused]
        refine (Value.asList_twin lists "cons").bind
          fun nodes others nodesTwin => ?_
        exact .ok
          ⟨Value.Twin.list_iff.2 ⟨_, rfl, .cons ⟨rfl, values⟩ nodesTwin⟩,
            (twin.take 1).onward⟩
    | get =>
        obtain ⟨table, other, key, another, rfl, rfl, tables, keys⟩ :=
          forall₂_two all (taken rfl)
        simp only [Builtin.invoke, Value.asText_eq keys]
        refine (Value.asMap_twin tables "get").bind
          fun entries others entriesTwin => ?_
        cases key.asText "get" with
        | error exception => exact .error _
        | ok text =>
            simp only [ok_bind]
            rcases rel_cases (Dictionary.find?_twin entriesTwin text) with
              ⟨held, there⟩ | ⟨_, _, held, there, values⟩
            · rw [held, there]
              exact .ok ⟨.nil, twin.onward⟩
            · rw [held, there]
              exact .ok ⟨values, twin.onward⟩
    | listEq =>
        obtain ⟨left, other, right, another, rfl, rfl, lefts, rights⟩ :=
          forall₂_two all (taken rfl)
        simp only [Builtin.invoke, lefts.eq_eq rights]
        exact .ok ⟨.bool _, twin.onward⟩
    | mapEq =>
        obtain ⟨left, other, right, another, rfl, rfl, lefts, rights⟩ :=
          forall₂_two all (taken rfl)
        simp only [Builtin.invoke, lefts.eq_eq rights]
        exact .ok ⟨.bool _, twin.onward⟩
    | put =>
        obtain ⟨table, other, key, another, value, partner, rfl, rfl, tables,
            keys, values⟩ :=
          forall₂_three all (taken rfl)
        simp only [Builtin.invoke, Value.asText_eq keys, unused]
        refine (Value.asMap_twin tables "put").bind
          fun entries others entriesTwin => ?_
        cases key.asText "put" with
        | error exception => exact .error _
        | ok text =>
            exact .ok
              ⟨Value.Twin.map_iff.2
                ⟨_, rfl, Dictionary.insert_twin entriesTwin text values⟩,
              (twin.take 1).onward⟩
    | method =>
        obtain ⟨typeName, left, operatorName, right, value, partner, rfl, rfl,
            types, names, values⟩ :=
          forall₂_three all (taken rfl)
        exact (twin.method types names values).bind fun _ _ onward =>
          .ok ⟨.nil, onward⟩
    | exception =>
        have few : arguments.length = 1 ∨ arguments.length = 2 := by
          simp only [Builtin.arity, Arity.accepts, Bool.and_eq_true,
            decide_eq_true_eq] at accepted
          omega
        rcases few with one | two
        · obtain ⟨message, other, rfl, rfl, messages⟩ := forall₂_one all one
          simp only [Builtin.invoke, Value.asText_eq messages, unused]
          cases message.asText "exception" with
          | error exception => exact .error _
          | ok text => exact .ok ⟨.exception _ _, (twin.take 1).onward⟩
        · obtain ⟨kindName, another, message, other, rfl, rfl, kinds,
            messages⟩ := forall₂_two all two
          simp only [Builtin.invoke, Value.asText_eq messages,
            Native.exceptionKind_eq kinds, unused]
          cases Native.exceptionKind kindName with
          | error exception => exact .error _
          | ok kind =>
              cases message.asText "exception" with
              | error exception => exact .error _
              | ok text => exact .ok ⟨.exception _ _, (twin.take 1).onward⟩
  next => exact .error _

end Natives

/-! ## Calls -/

section Calls

variable {arguments partners : List Value} {callee value partner : Value}

/-- Calls of twin closures open twin frames. -/
theorem Twin.callClosure {closure another : Closure}
    (twin : Twin true alignments first second)
    (closures : closure.Twin another)
    (all : List.Forall₂ Value.Twin arguments partners) :
    Tracks
      (fun opened other => ∃ alignment,
        Twin false (alignment :: alignments) opened other)
      (first.callValue (.closure closure) arguments)
        (second.callValue (.closure another) partners) := by
  have alike := closures.templates.alike
  simp only [Machine.callValue, alike.arity, alike.name, ← all.length_eq]
  split
  · exact twin.openFrame closures all
  · exact .error _

theorem Twin.callValue
    (twin : Twin true alignments first second)
    (callees : callee.Twin partner)
    (all : List.Forall₂ Value.Twin arguments partners) :
    Tracks Onward (first.callValue callee arguments)
      (second.callValue partner partners) := by
  cases callees with
  | @closure identity template another boxes templates =>
      have closures : Closure.Twin ⟨identity, template, boxes⟩
          ⟨identity, another, boxes⟩ := ⟨rfl, rfl, templates⟩
      exact (twin.callClosure closures all).imp fun _ _ ⟨_, opened⟩ =>
        opened.onward
  | builtin builtin =>
      have native := twin.callNative builtin all
      simp only [Machine.callValue]
      cases called : builtin.call first arguments with
      | error exception =>
          rw [called] at native
          rcases native with impossible | fails
          · exact impossible.elim
          · rw [fails]
            exact .error _
      | ok result =>
          rw [called] at native
          obtain ⟨⟨other, after⟩, succeeds, values, alignments, afterTwin⟩ :=
            native
          rw [succeeds]
          exact (afterTwin.push values).imp fun _ _ => Twin.onward
  | _ => exact .error _

/-- Calls of what lies beneath the given count of arguments. -/
theorem Twin.call
    (twin : Twin true (alignment :: older) first second)
    (frames : first.frames = frame :: below)
    (others : second.frames = other :: beneath)
    (count : Nat) :
    Tracks Onward (first.call count) (second.call count) := by
  obtain ⟨newest, _, _⟩ := twin.newest frames others
  unfold Machine.call
  rw [top_eq frames, top_eq others, ok_bind, ok_bind]
  have dropped := List.forall₂_drop count newest.stack
  have taken := List.rel_reverse (List.forall₂_take count newest.stack)
  cases held : frame.stack.drop count with
  | nil => exact .inl trivial
  | cons callee rest =>
      cases there : other.stack.drop count with
      | nil =>
          rw [held, there] at dropped
          cases dropped
      | cons partner remaining =>
          rw [held, there] at dropped
          simp only [setTop_eq frames, setTop_eq others]
          cases dropped with
          | cons callees rests =>
              exact (twin.withStack frames others rests).callValue callees taken

theorem Twin.pushResult
    {result another : Except Exception Value}
    (twin : Twin strict alignments first second)
    (results : Agree Value.Twin result another) :
    Tracks Onward (first.pushResult result) (second.pushResult another) := by
  cases result with
  | error exception =>
      rcases results with impossible | rfl
      · exact impossible.elim
      · exact .error _
  | ok value =>
      obtain ⟨partner, rfl, values⟩ := results
      exact (twin.push values).imp fun _ _ => Twin.onward

end Calls

/-! ## Operators -/

/-- A method of twins does the same, whatever the operands are. -/
theorem Twin.method?_cases
    (twin : Twin strict alignments first second)
    (typeName : String) (operator : Operator) :
    (first.methods.find? typeName operator = none ∧
      second.methods.find? typeName operator = none) ∨
      ∃ method other, first.methods.find? typeName operator = some method ∧
        second.methods.find? typeName operator = some other ∧
        method.Twin other :=
  rel_cases (MethodTable.find?_twin twin.methods typeName operator)

theorem Twin.binaryOperator
    (twin : Twin true (alignment :: older) first second)
    (frames : first.frames = frame :: below)
    (others : second.frames = other :: beneath)
    (operator : Operator) :
    Tracks Onward (first.binaryOperator operator)
      (second.binaryOperator operator) := by
  unfold Machine.binaryOperator
  refine twin.pop_bind frames others
    fun right another _ _ rights stackTwins => ?_
  refine (twin.withStack frames others stackTwins).pop_bind rfl rfl
    fun left partner _ _ lefts rests => ?_
  have popped := twin.withStack frames others rests
  simp only [twin.store.unused, operator.identitiesTaken_eq lefts rights,
    lefts.typeName_eq]
  rcases rel_cases (operator.binary_twin first.store.unused lefts rights) with
    ⟨held, there⟩ | ⟨result, outcome, held, there, results⟩
  · simp only [held, there]
    rcases twin.method?_cases left.typeName operator with
      ⟨missing, absent⟩ | ⟨method, otherMethod, found, alike, methods⟩
    · simp only [missing, absent, operator.fallback_eq lefts rights]
      exact popped.pushResult (agree_refl _)
    · simp only [found, alike]
      refine popped.push_bind rfl rfl ?_
      have withMethod := popped.withStack rfl rfl (.cons methods rests)
      refine withMethod.push_bind rfl rfl ?_
      have withLeft := withMethod.withStack rfl rfl
        (.cons lefts (.cons methods rests))
      refine withLeft.push_bind rfl rfl ?_
      exact (withLeft.withStack rfl rfl
        (.cons rights (.cons lefts (.cons methods rests)))).call rfl rfl 2
  · simp only [held, there]
    exact (popped.take _).pushResult results

theorem Twin.negate
    (twin : Twin true (alignment :: older) first second)
    (frames : first.frames = frame :: below)
    (others : second.frames = other :: beneath) :
    Tracks Onward first.negate second.negate := by
  unfold Machine.negate
  refine twin.pop_bind frames others
    fun operand partner _ _ operands stackTwins => ?_
  have popped := twin.withStack frames others stackTwins
  simp only [Operator.neg.unary_eq operands, operands.typeName_eq]
  cases Operator.neg.unary operand with
  | some result => exact popped.pushResult (agree_refl _)
  | none =>
      rcases twin.method?_cases operand.typeName .neg with
        ⟨missing, absent⟩ | ⟨method, otherMethod, found, alike, methods⟩
      · simp only [missing, absent, Operator.neg.fallback_none_eq operands]
        exact popped.pushResult (agree_refl _)
      · simp only [found, alike]
        refine popped.push_bind rfl rfl ?_
        have withMethod := popped.withStack rfl rfl (.cons methods stackTwins)
        refine withMethod.push_bind rfl rfl ?_
        exact (withMethod.withStack rfl rfl
          (.cons operands (.cons methods stackTwins))).call rfl rfl 1

end Machine

end EffectScript
