import EffectScript.Proofs.Points
import EffectScript.Proofs.Values
import Mathlib.Data.List.Forall2
import Mathlib.Data.List.TakeWhile

/-!
# Activations

An *activation* is a live call together with what is known about it: the
structured body of its function, the shape at its offset, and the handlers that
it has registered in attempts that are not complete. The handlers in force are
determined by the activations: each one contributes its own, and an activation
that answers an effect hides the newest ones of those that were in force below
it.

A machine is *sound* when its frames and handlers come from activations that fit
their shapes, and when its surroundings are sound.
-/

namespace EffectScript

/-- A live call with what is known about it. The entries for its handlers are of
any type, so that they can carry more than the handler. -/
structure Activation (α : Type) where
  frame : Frame
  /-- The body of its function. -/
  code : Code
  /-- The shape at its offset. -/
  shape : Shape
  /-- The handlers that it has registered in attempts that are not complete, the
  newest one first. -/
  own : List α

namespace Activation

variable {α β : Type}

/-- How many of the handlers in force below it the activation hides. -/
def hidden (activation : Activation α) : Nat :=
  match activation.frame.link with
  | none => 0
  | some link => link.stash.length

/-- The handlers in force, the newest one first. -/
def inForce : List (Activation α) → List α
  | [] => []
  | activation :: older =>
      activation.own ++ (inForce older).drop activation.hidden

@[simp]
theorem inForce_nil : inForce ([] : List (Activation α)) = [] := rfl

@[simp]
theorem inForce_cons (activation : Activation α) (older : List (Activation α)) :
    inForce (activation :: older) = activation.own ++
      (inForce older).drop activation.hidden := rfl

theorem hidden_of_unlinked {activation : Activation α}
    (unlinked : activation.frame.link = none) :
    activation.hidden = 0 := by
  simp [hidden, unlinked]

theorem hidden_of_link {activation : Activation α}
    {link : EffectLink}
    (linked : activation.frame.link = some link) :
    activation.hidden = link.stash.length := by
  simp [hidden, linked]

/-- Activations that answer no effect hide nothing. -/
theorem inForce_append {above below : List (Activation α)}
    (unlinked : ∀ activation ∈ above, activation.frame.link = none) :
    inForce (above ++ below) = above.flatMap (·.own) ++ inForce below := by
  induction above with
  | nil => rfl
  | cons activation above inner =>
      rw [List.cons_append, inForce_cons,
        hidden_of_unlinked (unlinked activation List.mem_cons_self), inner
          fun other member => unlinked other (List.mem_cons_of_mem _ member)]
      simp

/-- A handler in force belongs to an activation; the older handlers in force are
the older ones of that activation and those that it leaves in force. -/
theorem inForce_split {activations : List (Activation α)}
    {newer older : List α} {entry : α}
    (split : inForce activations = newer ++ entry :: older) :
    ∃ above activation below front back,
      activations = above ++ activation :: below ∧
      activation.own = front ++ entry :: back ∧
      older = back ++ (inForce below).drop activation.hidden := by
  induction activations generalizing newer with
  | nil => simp at split
  | cons activation others inner =>
      rw [inForce_cons] at split
      rcases List.append_eq_append_iff.1
        split with ⟨front, newerEq, rest⟩ | ⟨back, ownEq, rest⟩
      · have shown : inForce others =
            ((inForce others).take activation.hidden ++ front) ++
              entry :: older := by
          rw [List.append_assoc, ← rest, List.take_append_drop]
        obtain ⟨above, found, below, front, back, parts, ownParts, olderEq⟩ :=
          inner shown
        exact ⟨activation :: above, found, below, front, back, by
          rw [parts]; rfl, ownParts, olderEq⟩
      · cases back with
        | nil =>
            have shown : inForce others =
                (inForce others).take activation.hidden ++ entry :: older := by
              rw [show entry :: older = [] ++
                (inForce others).drop activation.hidden from rest]
              simp
            obtain ⟨above, found, below, front, back, parts, ownParts,
              olderEq⟩ := inner shown
            exact ⟨activation :: above, found, below, front, back, by
              rw [parts]; rfl, ownParts,
              olderEq⟩
        | cons first back =>
            cases rest
            exact ⟨[], activation, others, newer, back, rfl, ownEq, rfl⟩

/-! ## Related lists -/

section Related

variable {related : α → β → Prop} {first : List α} {second front back : List β}

theorem forall₂_mem_right
    (all : List.Forall₂ related first second)
    {entry : β}
    (member : entry ∈ second) :
    ∃ partner ∈ first, related partner entry := by
  induction all with
  | nil => cases member
  | cons head _ inner =>
      rcases List.mem_cons.1 member with rfl | later
      · exact ⟨_, List.mem_cons_self, head⟩
      · obtain ⟨partner, held, relates⟩ := inner later
        exact ⟨partner, List.mem_cons_of_mem _ held, relates⟩

theorem forall₂_append_right
    (all : List.Forall₂ related first (front ++ back)) :
    ∃ early late, first = early ++ late ∧ List.Forall₂ related early front ∧
      List.Forall₂ related late back :=
  ⟨first.take front.length, first.drop front.length,
    (List.take_append_drop _ _).symm, List.forall₂_take_append _ _ _ all,
    List.forall₂_drop_append _ _ _ all⟩

theorem forall₂_append_left {early late : List α}
    (all : List.Forall₂ related (early ++ late) second) :
    ∃ front back, second = front ++ back ∧ List.Forall₂ related early front ∧
      List.Forall₂ related late back := by
  refine ⟨second.take early.length, second.drop early.length,
    (List.take_append_drop _ _).symm, ?_, ?_⟩
  · simpa using List.forall₂_take early.length all
  · simpa using List.forall₂_drop early.length all

theorem forall₂_dropWhile {holds : α → Bool}
    {alike : β → Bool}
    (all : List.Forall₂ related first second)
    (agree : ∀ partner entry, related partner entry →
      holds partner = alike entry) :
    List.Forall₂ related (first.dropWhile holds) (second.dropWhile alike) := by
  induction all with
  | nil => exact .nil
  | cons head tail inner =>
      simp only [List.dropWhile_cons, agree _ _ head]
      split
      · exact inner
      · exact .cons head tail

theorem forall₂_pairwise {before : α → α → Prop}
    {after : β → β → Prop}
    (all : List.Forall₂ related first second)
    (sorted : first.Pairwise before)
    (carries : ∀ partner other entry another, related partner entry →
      related other another → before partner other → after entry another) :
    second.Pairwise after := by
  induction all with
  | nil => exact .nil
  | cons head tail inner =>
      obtain ⟨heads, tails⟩ := List.pairwise_cons.1 sorted
      refine List.Pairwise.cons ?_ (inner tails)
      intro entry member
      obtain ⟨partner, held, relates⟩ := forall₂_mem_right tail member
      exact carries _ _ _ _ head relates (heads partner held)

end Related

/-! ## What is known about an activation -/

/-- The handler is the one that the code of a function registers. -/
structure Answers
    (template : Template) (index : Nat)
    (registration : Registration)
    (handler : Handler) : Prop where
  frame : handler.frame = index
  depth : handler.depth = registration.depth
  target : handler.target = registration.target
  effect : template.name? registration.effect = some handler.effect
  closure : handler.closure.Sound
  arity : handler.closure.template.arity = 1

/-- The activation with the given index fits its shape. An activation that is
not the newest one awaits one more value. -/
structure Fits (activation : Activation Handler) (index awaiting : Nat) :
    Prop where
  closure : activation.frame.closure.Sound
  laidOut : activation.frame.template.LaidOut activation.code
  known : activation.code.Known activation.frame.ip activation.shape
  height : activation.frame.stack.length + awaiting = activation.shape.depth
  room : awaiting ≤ activation.shape.height
  made : ∀ function, activation.shape.made = some function → awaiting = 0 ∧
    ∃ closure rest, activation.frame.stack = .closure closure :: rest ∧
      activation.frame.template.pools.IsFunction function closure.template
  own : List.Forall₂ (Answers activation.frame.template index)
    activation.shape.active activation.own
  slots : activation.frame.slots.length = activation.frame.template.locals
  boxes : ∀ slot ∈ activation.frame.template.heapSlots,
    ∃ cell, activation.frame.slots[slot.toNat]? = some (.box cell)
  stackSound : ∀ value ∈ activation.frame.stack, value.Sound
  slotsSound : ∀ value ∈ activation.frame.slots, value.Sound

/-- The handlers in force when an effect is performed: the newest handler for it
with newer ones, the rest of its group, and those that stay. -/
structure Divided
    (handlers newer : List Handler)
    (handler : Handler)
    (group staying : List Handler) : Prop where
  split : handlers = newer ++ handler :: (group ++ staying)
  together : ∀ other ∈ group, handler.sameGroup other
  apart : ∀ other ∈ staying.head?, ¬ handler.sameGroup other

/-- The link of an activation is what performing an effect above the given
activations records. -/
def Tied (link : EffectLink) (older : List (Activation Handler)) : Prop :=
  ∃ newer handler group staying,
    Divided (inForce older) newer handler group staying ∧
    link.resumeInto + 1 = older.length ∧ link.handlerFrame = handler.frame ∧
    link.depth = handler.depth ∧ link.target = handler.target ∧
    link.groupStart = staying.length ∧ link.stash = newer ++ handler :: group

/-- All activations fit their shapes, and those that answer effects are tied to
them. -/
def Stacked : Nat → List (Activation Handler) → Prop
  | _, [] => True
  | awaiting, activation :: older =>
      activation.Fits older.length awaiting ∧
        (∀ link, activation.frame.link = some link → Tied link older) ∧
          Stacked 1 older

end Activation

open Activation

/-- The machine comes from activations that fit their shapes. -/
structure Machine.Sound
    (machine : Machine)
    (activations : List (Activation Handler)) : Prop where
  surrounded : machine.Surrounded
  frames : machine.frames = activations.map (·.frame)
  handlers : machine.handlers = inForce activations
  stacked : Stacked 0 activations

namespace Activation

variable {activation : Activation Handler}
    {above below older activations : List (Activation Handler)}

/-! ## Consequences -/

variable {index awaiting : Nat} {handler : Handler}

theorem Stacked.fits
    (stacked : Stacked awaiting (above ++ activation :: older)) :
    ∃ waiting, activation.Fits older.length waiting := by
  induction above generalizing awaiting with
  | nil => exact ⟨awaiting, stacked.1⟩
  | cons newest others inner => exact inner stacked.2.2

/-- The attempt of a handler encloses the activation that registered it. -/
theorem Fits.owned
    (fits : activation.Fits index awaiting)
    (member : handler ∈ activation.own) :
    handler.frame = index ∧ handler.depth ≤ activation.shape.floor ∧
      activation.frame.ip < handler.target := by
  obtain ⟨registration, held, answers⟩ := forall₂_mem_right fits.own member
  obtain ⟨emission, here⟩ := fits.known
  have encloses := (fits.laidOut.enclosed here).2 registration held
  refine ⟨answers.frame, ?_, ?_⟩
  · rw [answers.depth]
    exact encloses.depth
  · rw [answers.target]
    exact encloses.before

/-- Newer handlers of an activation belong to attempts that end no later. -/
theorem Fits.sorted (fits : activation.Fits index awaiting) :
    activation.own.Pairwise fun newer older => newer.target ≤ older.target := by
  obtain ⟨emission, here⟩ := fits.known
  refine forall₂_pairwise fits.own (fits.laidOut.enclosed here).1 ?_
  intro registration other handler another answers otherAnswers sorted
  rw [answers.target, otherAnswers.target]
  exact sorted

theorem lands_drop {next : Nat → Shape → Prop}
    {front back : List Registration}
    (lands : Lands next (front ++ back)) :
    Lands next back := by
  induction front with
  | nil => exact lands
  | cons registration front inner => exact inner lands.2

/-- The shape of an activation at the end of the attempt of one of its
handlers. -/
theorem Fits.landing {front kept : List Handler}
    (fits : activation.Fits index awaiting)
    (own : activation.own = front ++ handler :: kept) :
    ∃ floor height rest, floor + height = handler.depth ∧
      List.Forall₂ (Answers activation.frame.template index) rest kept ∧
      activation.code.Known handler.target
        ⟨floor, height + 1, rest.dropWhile fun other =>
          other.target = handler.target, none⟩ := by
  obtain ⟨early, late, activeEq, _, lateOwn⟩ :=
    forall₂_append_right (own ▸ fits.own)
  cases lateOwn with
  | @cons registration _ rest _ answers restOwn =>
      obtain ⟨emission, here⟩ := fits.known
      obtain ⟨_, lands, _, _⟩ := fits.laidOut.follow here
      rw [activeEq] at lands
      obtain ⟨floor, height, level, landing⟩ := (lands_drop lands).1
      rw [answers.depth, answers.target]
      exact ⟨floor, height, rest, level, restOwn, landing⟩

theorem Stacked.drop (stacked : Stacked 1 (above ++ below)) :
    Stacked 1 below := by
  induction above with
  | nil => exact stacked
  | cons activation above inner => exact inner stacked.2.2

/-- A handler is of a live frame. -/
theorem Stacked.frame_lt {awaiting : Nat}
    (stacked : Stacked awaiting activations)
    {handler : Handler}
    (member : handler ∈ inForce activations) :
    handler.frame < activations.length := by
  induction activations generalizing awaiting with
  | nil => cases member
  | cons activation older inner =>
      rcases List.mem_append.1 member with mine | below
      · obtain ⟨registration, _, answers⟩ :=
          forall₂_mem_right stacked.1.own mine
        rw [answers.frame, List.length_cons]
        exact Nat.lt_succ_self _
      · exact Nat.lt_succ_of_lt (inner stacked.2.2 (List.mem_of_mem_drop below))

/-- Performing an effect divides the handlers in force. -/
theorem Divided.of_find? {effect : String}
    {handlers : List Handler} {dispatch : Dispatch}
    (found : Dispatch.find? effect handlers = some dispatch) :
    ∃ newer group, Divided handlers newer dispatch.handler group
        dispatch.staying ∧
      dispatch.stash = newer ++ dispatch.handler :: group ∧
      dispatch.handler.effect = effect ∧
      ∀ other ∈ newer, other.effect ≠ effect := by
  induction handlers generalizing dispatch with
  | nil => cases found
  | cons handler older inner =>
      simp only [Dispatch.find?] at found
      split at found
      next same =>
        cases found
        refine ⟨[], older.takeWhile handler.sameGroup, ⟨?_, ?_, ?_⟩, rfl,
          same, by simp⟩
        · simp [List.takeWhile_append_dropWhile]
        · exact fun other member => List.mem_takeWhile_imp member
        · intro other first
          have different := List.head?_dropWhile_not handler.sameGroup older
          rw [Option.mem_def.1 first] at different
          simp only at different
          simp [different]
      next different =>
        obtain ⟨rest, restFound, rfl⟩ := Option.map_eq_some_iff.1 found
        obtain ⟨newer, group, divided, stashEq, effectEq, others⟩ :=
          inner restFound
        refine ⟨handler :: newer, group, ⟨?_, divided.together, divided.apart⟩,
          ?_, effectEq, ?_⟩
        · rw [divided.split, List.cons_append]
        · simp only [stashEq, List.cons_append]
        · intro other member
          rcases List.mem_cons.1 member with rfl | later
          · exact different
          · exact others other later

/-- An activation after a handler has completed an attempt of it with a
value. -/
def completed
    (activation : Activation Handler)
    (handler : Handler) (value : Value) (shape : Shape) (kept : List Handler) :
    Activation Handler :=
  { activation with
    frame := { activation.frame with
      stack := value :: oldest handler.depth activation.frame.stack
      ip := handler.target }
    shape := shape
    own := kept }

/-- The activation owns the attempt of the handler, and abandoning the attempt
leaves the kept handlers of it and the given shape. -/
structure Owns
    (activation : Activation Handler)
    (below : List (Activation Handler))
    (handler : Handler)
    (staying cut kept : List Handler)
    (shape : Shape) : Prop where
  index : handler.frame = below.length
  own : activation.own = cut ++ kept
  member : handler ∈ cut
  inner : ∀ other ∈ cut, other.target ≤ handler.target
  staying : staying = kept ++ (inForce below).drop activation.hidden
  deep : handler.depth ≤ activation.frame.stack.length
  level : shape.floor ≤ handler.depth
  fits : ∀ value, value.Sound →
    (activation.completed handler value shape kept).Fits below.length 0

/-- The group of a handler ends where the handlers stay. -/
theorem Divided.dropWhile_group
    {handlers newer group staying : List Handler}
    (divided : Divided handlers newer handler group staying) :
    (group ++ staying).dropWhile handler.sameGroup = staying := by
  rw [List.dropWhile_append_of_pos divided.together]
  cases staying with
  | nil => rfl
  | cons first rest =>
      exact List.dropWhile_cons_of_neg (divided.apart first rfl)

/-- The group of a handler does not go on among the handlers of older frames. -/
theorem Stacked.dropWhile_group
    (stacked : Stacked awaiting below)
    (back : List Handler)
    (deep : below.length ≤ handler.frame)
    (count : Nat) :
    (back ++ (inForce below).drop count).dropWhile handler.sameGroup =
      back.dropWhile handler.sameGroup ++ (inForce below).drop count := by
  rw [List.dropWhile_append]
  split
  next gone =>
    rw [List.isEmpty_iff.1 gone, List.nil_append]
    cases rest : (inForce below).drop count with
    | nil => rfl
    | cons first others =>
        have small := stacked.frame_lt
          (List.mem_of_mem_drop (rest ▸ List.mem_cons_self))
        refine List.dropWhile_cons_of_neg ?_
        simp only [Handler.sameGroup, Bool.and_eq_true, beq_iff_eq]
        omega
  next => rfl

/-- Every handler in force belongs to an attempt of an activation that can be
abandoned. -/
theorem Stacked.owner
    (stacked : Stacked 1 activations)
    {newer group staying : List Handler}
    (divided : Divided (inForce activations) newer handler group staying) :
    ∃ above activation below cut kept shape,
      activations = above ++ activation :: below ∧
      activation.Owns below handler staying cut kept shape := by
  obtain ⟨above, activation, below, front, back, rfl, ownEq, olderEq⟩ :=
    inForce_split divided.split
  obtain ⟨fits, _, belowStacked⟩ := stacked.drop
  obtain ⟨frameEq, shallow, _⟩ :=
    fits.owned (show handler ∈ activation.own by simp [ownEq])
  obtain ⟨floor, height, rest, level, restOwn, landing⟩ := fits.landing ownEq
  have deep : handler.depth ≤ activation.frame.stack.length := by
    have height := fits.height
    have room := fits.room
    unfold Shape.depth at height
    omega
  have agree : ∀ partner other, Answers activation.frame.template below.length
      partner other →
      decide (partner.target = handler.target) = handler.sameGroup other := by
    intro partner other answers
    simp only [Handler.sameGroup, frameEq, answers.frame, answers.target,
      beq_self_eq_true, Bool.true_and]
    exact decide_eq_decide.2 eq_comm
  refine ⟨above, activation, below,
    front ++ handler :: back.takeWhile handler.sameGroup,
    back.dropWhile handler.sameGroup,
    ⟨floor, height + 1, rest.dropWhile fun other =>
      other.target = handler.target, none⟩, rfl, frameEq, ?_, by
        simp, ?_, ?_, deep, Nat.le.intro level, ?_⟩
  · rw [ownEq]
    simp [List.takeWhile_append_dropWhile]
  · have sorted := ownEq ▸ fits.sorted
    intro other member
    rcases List.mem_append.1 member with new | old
    · exact (List.pairwise_append.1 sorted).2.2 other new handler
        List.mem_cons_self
    · rcases List.mem_cons.1 old with rfl | same
      · exact Nat.le_refl _
      · have alike := List.mem_takeWhile_imp same
        simp only [Handler.sameGroup, Bool.and_eq_true, beq_iff_eq] at alike
        exact Nat.le_of_eq alike.2.symm
  · rw [← divided.dropWhile_group, olderEq]
    exact belowStacked.dropWhile_group back (Nat.le_of_eq frameEq.symm)
      activation.hidden
  · intro value valueSound
    refine ⟨fits.closure, fits.laidOut, landing, ?_, Nat.zero_le _, ?_,
      forall₂_dropWhile restOwn agree, fits.slots, fits.boxes, ?_,
      fits.slotsSound⟩
    · simp only [completed, List.length_cons, length_oldest, Shape.depth]
      rw [Nat.min_eq_left deep]
      omega
    · rintro function ⟨⟩
    · intro held member
      rcases List.mem_cons.1 member with rfl | old
      · exact valueSound
      · exact fits.stackSound held (List.mem_of_mem_drop old)

end Activation

end EffectScript
