import EffectScript.Proofs.TwinDrafts

/-!
# The two ways to compile

The compiler runs side by side with the one that pops the results of all
statements. As long as both succeed, their drafts stay twins: lowering an
expression appends one list of closed items to both. Jumps are patched to
distances that differ, but lead to places that correspond.

The main statement is that the two functions that a program is compiled to are
twins.
-/

namespace EffectScript

/-- Drafts from the innermost one outward that are twins, each pair with its
page. -/
inductive DraftsTwin : List Page → List Draft → List Draft → Prop
  | nil : DraftsTwin [] [] []
  | cons {page : Page} {pages : List Page} {first second : Draft}
      {firsts seconds : List Draft}
      (twin : Draft.Twin page first second)
        (others : DraftsTwin pages firsts seconds) :
      DraftsTwin (page :: pages) (first :: firsts) (second :: seconds)

theorem DraftsTwin.isEmpty_eq {pages : List Page}
    {firsts seconds : List Draft}
    (twins : DraftsTwin pages firsts seconds) :
    seconds.isEmpty = firsts.isEmpty := by
  cases twins <;> rfl

/-- The slot that a store writes to is among the first so many. -/
def StoreTarget.Below (slots : Nat) : StoreTarget → Prop
  | .slot number => number.toNat < slots
  | .global _ => True

namespace Nest

/-- Nests whose drafts are twins. -/
structure Twin (page : Page) (outer : List Page) (first second : Nest) :
    Prop where
  current : Draft.Twin page first.current second.current
  enclosing : DraftsTwin outer first.enclosing second.enclosing
  finished : second.finished = first.finished

/-- Nests that are twins after new items that are closed. -/
structure Paired
    (held : List Item) (slots : Nat) (outer : List Page) (new : List Item)
    (first second : Nest) :
    Prop extends Twin ⟨held ++ new, slots⟩ outer first second where
  closed : Closed new

/-- Nests that are twins after the items of an expression. The last one is in
both codes. Where the push of a result is remembered, the items are closed
without it. -/
structure PairedValue
    (held : List Item) (slots : Nat) (outer : List Page) (new : List Item)
    (first second : Nest) :
    Prop extends Paired held slots outer new first second where
  last : ∃ front item, new = front ++ [item] ∧ item.isShared
  droppable : second.current.removable ≠ none →
    ∃ shorter line, new = shorter ++ [.plain .pushNil [] line] ∧ Closed shorter

variable {page : Page} {outer : List Page} {held new more : List Item}
    {slots : Nat} {line : UInt32} {first second later other : Nest}
    {name : String} {opcode : Opcode} {operands : List UInt8}

theorem Twin.paired (twin : Twin ⟨held, slots⟩ outer first second) :
    Paired held slots outer [] first second where
  toTwin := by simpa using twin
  closed := closed_nil

theorem Paired.append
    (paired : Paired held slots outer new first second)
    (onward : Paired (held ++ new) slots outer more later other) :
    Paired held slots outer (new ++ more) later other where
  toTwin := by simpa using onward.toTwin
  closed := paired.closed.append onward.closed

/-- The items of an expression behind other closed ones. -/
theorem Paired.value
    (paired : Paired held slots outer new first second)
    (onward : PairedValue (held ++ new) slots outer more later other) :
    PairedValue held slots outer (new ++ more) later other where
  toPaired := paired.append onward.toPaired
  last := by
    obtain ⟨front, item, rfl, shared⟩ := onward.last
    exact ⟨new ++ front, item, by simp, shared⟩
  droppable := by
    intro remembered
    obtain ⟨shorter, line, rfl, closed⟩ := onward.droppable remembered
    exact ⟨new ++ shorter, line, by simp, paired.closed.append closed⟩

/-- Writing to the innermost drafts. -/
theorem Twin.write
    (twin : Twin page outer first second)
    {another : Page} {draft partner : Draft}
    (written : Draft.Twin another draft partner) :
    Twin another outer { first with current := draft }
      { second with current := partner } :=
  ⟨written, twin.enclosing, twin.finished⟩

theorem Twin.offsets (twin : Twin page outer first second) :
    first.offset = extent .kept page.items ∧
    second.offset = extent .elided page.items :=
  ⟨twin.current.keptSize, twin.current.elidedSize⟩

theorem Twin.emit
    (twin : Twin ⟨held, slots⟩ outer first second)
    (complete : operands.length = opcode.operandCount)
    (noAccess : opcode.promoted? = none)
    (line : UInt32) :
    Twin ⟨held ++ [.plain opcode operands line], slots⟩ outer
      (first.emit opcode operands line) (second.emit opcode operands line) :=
  twin.write (twin.current.emit complete noAccess line)

/-- One more item that closes what is there, in drafts that remember no
result. -/
theorem Paired.last {item : Item}
    (paired : Paired held slots outer new first second)
    (twin : Twin ⟨held ++ new ++ [item], slots⟩ outer later other)
    (closed : Closed [item]) (shared : item.isShared)
    (fixed : other.current.removable = none) :
    PairedValue held slots outer (new ++ [item]) later other where
  toTwin := by simpa using twin
  closed := paired.closed.append closed
  last := ⟨new, item, rfl, shared⟩
  droppable := fun remembered => (remembered fixed).elim

/-- Both nests get one more operation that accesses no slot and leads
nowhere. -/
theorem Paired.emit
    (paired : Paired held slots outer new first second)
    (complete : operands.length = opcode.operandCount)
    (noAccess : opcode.promoted? = none)
    (onward : opcode ≠ .jump ∧ opcode ≠ .jumpIfFalse ∧ opcode ≠ .loop ∧
      opcode ≠ .setHandler)
    (line : UInt32) :
    PairedValue held slots outer (new ++ [.plain opcode operands line])
      (first.emit opcode operands line) (second.emit opcode operands line) :=
  paired.last (paired.toTwin.emit complete noAccess line)
    (closed_plain operands line onward) rfl rfl

/-! ### Results of statements -/

/-- Both nests get the push of a statement's result. -/
theorem Paired.statementNil
    (paired : Paired held slots outer new first second)
    (line : UInt32) :
    PairedValue held slots outer (new ++ [.plain .pushNil [] line])
      (first.emitStatementNil line) (second.emitStatementNil line) where
  toTwin := by
    have emitted := paired.toTwin.emit
      (show ([] : List UInt8).length = Opcode.pushNil.operandCount from rfl) rfl
        line
    rw [List.append_assoc] at emitted
    exact emitted.write (emitted.current.remember _ _)
  closed := paired.closed.append (closed_plain [] line (by decide))
  last := ⟨new, _, rfl, rfl⟩
  droppable := fun _ => ⟨new, line, rfl, paired.closed⟩

/-- Throwing the result of an expression away leaves closed items, whether the
push of it is taken back or not. -/
theorem PairedValue.discard
    (paired : PairedValue held slots outer new first second)
    (line : UInt32) :
    ∃ more, Paired held slots outer more (first.discard .kept line)
      (second.discard .elided line) := by
  have popped : ∃ more, Paired held slots outer more (first.emit .pop [] line)
      (second.emit .pop [] line) :=
    ⟨_, (paired.toPaired.emit rfl rfl (by decide) line).toPaired⟩
  have keeps : first.discard .kept line = first.emit .pop [] line := rfl
  rw [keeps]
  unfold Nest.discard Draft.discard
  split
  next offset remembered =>
    split
    next =>
      obtain ⟨shorter, pushLine, rfl, closed⟩ :=
        paired.droppable (by rw [remembered]; exact Option.some_ne_none _)
      have twin := paired.toTwin
      rw [← List.append_assoc] at twin
      refine ⟨shorter ++ [.dropped pushLine line], ?_,
        closed.append (closed_dropped _ _)⟩
      rw [← List.append_assoc]
      exact twin.write (twin.current.drop line)
    next => exact popped
  next => exact popped

/-! ### Names and constants -/

/-- Both nests find a name in the same slot, and make the same captures. -/
theorem resolveFrom_twin
    {current partner laterCurrent laterPartner : Draft}
    {enclosing partners laterEnclosing laterPartners : List Draft}
    {found otherFound : Option UInt8}
    (twin : Draft.Twin page current partner)
    (twins : DraftsTwin outer enclosing partners)
    (resolved : resolveFrom name line current enclosing = .ok
      (found, laterCurrent, laterEnclosing))
    (otherResolved : resolveFrom name line partner partners = .ok
      (otherFound, laterPartner, laterPartners)) :
    otherFound = found ∧ Draft.Twin page laterCurrent laterPartner ∧
      DraftsTwin outer laterEnclosing laterPartners ∧
      ∀ slot, found = some slot → slot.toNat < laterCurrent.slots.length := by
  induction twins generalizing page current partner laterCurrent laterPartner
    laterEnclosing
      laterPartners found otherFound with
  | nil =>
      cases resolved
      cases otherResolved
      exact ⟨twin.slot?_eq name, twin, .nil, fun slot held => twin.slot_lt held⟩
  | @cons outerPage pages outermost outermostPartner beyond beyondPartners
        outerTwin beyondTwins inner =>
      simp only [resolveFrom, twin.slot?_eq, beyondTwins.isEmpty_eq]
        at resolved otherResolved
      split at resolved
      next slot known =>
        rw [known] at otherResolved
        cases resolved
        cases otherResolved
        refine ⟨rfl, twin, .cons outerTwin beyondTwins, ?_⟩
        rintro _ ⟨⟩
        exact twin.slot_lt known
      next unknown =>
        rw [unknown] at otherResolved
        split at resolved
        next shallow =>
          simp only [if_pos shallow] at otherResolved
          cases resolved
          cases otherResolved
          exact ⟨rfl, twin, .cons outerTwin beyondTwins, by rintro _ ⟨⟩⟩
        next deep =>
          simp only [if_neg deep] at otherResolved
          obtain ⟨⟨foundOutside, outerLater, beyondLater⟩, outside, rest⟩ :=
            Outcome.bind_eq_ok.1 resolved
          obtain ⟨⟨otherOutside, outerOther, beyondOther⟩, otherwise,
              otherRest⟩ :=
            Outcome.bind_eq_ok.1 otherResolved
          obtain ⟨rfl, outerLaterTwin, beyondLaterTwins, _⟩ :=
            inner outerTwin outside otherwise
          cases otherOutside with
          | none =>
              cases rest
              cases otherRest
              exact ⟨rfl, twin, .cons outerLaterTwin beyondLaterTwins, by
                rintro _ ⟨⟩⟩
          | some outerSlot =>
              obtain ⟨⟨slot, captured⟩, declared, result⟩ :=
                Outcome.bind_eq_ok.1 rest
              obtain ⟨⟨otherSlot, otherCaptured⟩, otherDeclared, otherResult⟩ :=
                Outcome.bind_eq_ok.1 otherRest
              cases result
              cases otherResult
              obtain ⟨rfl, inRange, capturedTwin⟩ :=
                twin.declareCapture declared otherDeclared
              refine ⟨rfl, capturedTwin,
                .cons (outerLaterTwin.promote outerSlot) beyondLaterTwins, ?_⟩
              rintro _ ⟨⟩
              exact inRange

theorem Twin.resolve
    (twin : Twin page outer first second)
    {found otherFound : Option UInt8}
    (resolved : first.resolve name line = .ok (found, later))
    (otherResolved : second.resolve name line = .ok (otherFound, other)) :
    otherFound = found ∧ Twin page outer later other ∧
      ∀ slot, found = some slot → slot.toNat < later.current.slots.length := by
  obtain ⟨⟨_, current, enclosing⟩, searched, result⟩ :=
    Outcome.bind_eq_ok.1 resolved
  obtain ⟨⟨_, partner, partners⟩, otherSearched, otherResult⟩ :=
    Outcome.bind_eq_ok.1 otherResolved
  cases result
  cases otherResult
  obtain ⟨same, currentTwin, enclosingTwins, inRange⟩ :=
    resolveFrom_twin twin.current twin.enclosing searched otherSearched
  exact ⟨same, ⟨currentTwin, enclosingTwins, twin.finished⟩, inRange⟩

theorem Twin.nameIndex
    (twin : Twin page outer first second)
    {index otherIndex : UInt8}
    (named : first.nameIndex name line = .ok (index, later))
    (otherNamed : second.nameIndex name line = .ok (otherIndex, other)) :
    otherIndex = index ∧ Twin page outer later other := by
  obtain ⟨⟨_, draft⟩, indexed, result⟩ := Outcome.bind_eq_ok.1 named
  obtain ⟨⟨_, partner⟩, otherIndexed, otherResult⟩ :=
    Outcome.bind_eq_ok.1 otherNamed
  cases result
  cases otherResult
  obtain ⟨same, written⟩ := twin.current.nameIndex indexed otherIndexed
  exact ⟨same, twin.write written⟩

/-- Both nests get one more operation on a name. -/
theorem Paired.emitNamed
    (paired : Paired held slots outer new first second)
    (global : opcode = .loadGlobal ∨ opcode = .perform)
    (named : first.emitNamed opcode name line = .ok later)
    (otherNamed : second.emitNamed opcode name line = .ok other) :
    ∃ more, PairedValue held slots outer more later other := by
  obtain ⟨⟨index, indexed⟩, found, result⟩ := Outcome.bind_eq_ok.1 named
  obtain ⟨⟨otherIndex, otherIndexed⟩, otherFound, otherResult⟩ :=
    Outcome.bind_eq_ok.1 otherNamed
  cases result
  cases otherResult
  obtain ⟨rfl, twin⟩ := paired.toTwin.nameIndex found otherFound
  have indexedPaired : Paired held slots outer new indexed otherIndexed :=
    ⟨twin, paired.closed⟩
  rcases global with rfl | rfl
  · exact ⟨_, indexedPaired.emit rfl rfl (by decide) line⟩
  · exact ⟨_, indexedPaired.emit rfl rfl (by decide) line⟩

/-- Both nests get the push of a scalar constant. -/
theorem Paired.emitConstant
    (paired : Paired held slots outer new first second)
    {value : Value}
    (scalar : value.isScalar)
    (emitted : first.emitConstant value line = .ok later)
    (otherEmitted : second.emitConstant value line = .ok other) :
    ∃ more, PairedValue held slots outer more later other := by
  obtain ⟨⟨index, draft⟩, pooled, result⟩ := Outcome.bind_eq_ok.1 emitted
  obtain ⟨⟨otherIndex, partner⟩, otherPooled, otherResult⟩ :=
    Outcome.bind_eq_ok.1 otherEmitted
  cases result
  cases otherResult
  obtain ⟨rfl, written⟩ :=
    paired.current.addConstant (.inl ⟨scalar, rfl⟩) pooled otherPooled
  have pooledPaired :
      Paired held slots outer new { first with current := draft }
      { second with current := partner } :=
        ⟨paired.toTwin.write written, paired.closed⟩
  exact ⟨_, pooledPaired.emit rfl rfl (by decide) line⟩

/-- Both nests get the push of a literal. -/
theorem Twin.literal
    (twin : Twin ⟨held, slots⟩ outer first second)
    {value : Literal}
    (lowered : first.literal value line = .ok later)
    (otherLowered : second.literal value line = .ok other) :
    ∃ new, PairedValue held slots outer new later other := by
  cases value with
  | nil =>
      cases lowered
      cases otherLowered
      exact ⟨_, twin.paired.emit rfl rfl (by decide) line⟩
  | bool truth =>
      cases truth <;> cases lowered <;> cases otherLowered
      · exact ⟨_, twin.paired.emit rfl rfl (by decide) line⟩
      · exact ⟨_, twin.paired.emit rfl rfl (by decide) line⟩
  | int number => exact twin.paired.emitConstant rfl lowered otherLowered
  | str text => exact twin.paired.emitConstant rfl lowered otherLowered
  | float literal => cases lowered

/-- Both nests get the read of a variable. -/
theorem Twin.loadVariable
    (twin : Twin ⟨held, slots⟩ outer first second)
    (loaded : first.loadVariable name line = .ok later)
    (otherLoaded : second.loadVariable name line = .ok other) :
    ∃ new, PairedValue held slots outer new later other := by
  unfold Nest.loadVariable at loaded otherLoaded
  split at loaded
  · cases loaded
  next readable =>
    rw [if_neg readable] at otherLoaded
    obtain ⟨⟨found, resolved⟩, resolves, emitted⟩ := Outcome.bind_eq_ok.1 loaded
    obtain ⟨⟨otherFound, otherResolved⟩, otherResolves, otherEmitted⟩ :=
      Outcome.bind_eq_ok.1 otherLoaded
    obtain ⟨rfl, resolvedTwin, inRange⟩ := twin.resolve resolves otherResolves
    cases otherFound with
    | none =>
        exact resolvedTwin.paired.emitNamed (.inl rfl) emitted otherEmitted
    | some slot =>
        cases emitted
        cases otherEmitted
        have access := resolvedTwin.current.access
          (show Opcode.loadLocal.promoted? = some .loadHeap from
          rfl) rfl (inRange slot rfl) line
        refine ⟨[] ++ [.plain .loadLocal [slot] line],
          resolvedTwin.paired.last ?_
          (closed_plain _ _ (by decide)) rfl rfl⟩
        rw [List.append_nil]
        exact resolvedTwin.write access

/-- Both nests find the same place for an assignment. -/
theorem Twin.storeTarget
    (twin : Twin ⟨held, slots⟩ outer first second)
    {target otherTarget : StoreTarget}
    (targeted : first.storeTarget name line = .ok (target, later))
    (otherTargeted : second.storeTarget name line = .ok (otherTarget, other)) :
    otherTarget = target ∧ ∃ enough, slots ≤ enough ∧ target.Below enough ∧
      Twin ⟨held, enough⟩ outer later other := by
  obtain ⟨⟨found, resolved⟩, resolves, rest⟩ := Outcome.bind_eq_ok.1 targeted
  obtain ⟨⟨otherFound, otherResolved⟩, otherResolves, otherRest⟩ :=
    Outcome.bind_eq_ok.1 otherTargeted
  obtain ⟨rfl, resolvedTwin, inRange⟩ := twin.resolve resolves otherResolves
  cases otherFound with
  | some slot =>
      cases rest
      cases otherRest
      exact ⟨rfl, _, resolvedTwin.current.enough, inRange slot rfl,
        resolvedTwin.write (resolvedTwin.current.withSlots (Nat.le_refl _))⟩
  | none =>
      simp only [resolvedTwin.enclosing.isEmpty_eq] at rest otherRest
      split at rest
      next outermost =>
        rw [if_pos outermost] at otherRest
        obtain ⟨⟨index, named⟩, indexed, result⟩ := Outcome.bind_eq_ok.1 rest
        obtain ⟨⟨otherIndex, otherNamed⟩, otherIndexed, otherResult⟩ :=
          Outcome.bind_eq_ok.1 otherRest
        cases result
        cases otherResult
        obtain ⟨rfl, namedTwin⟩ := resolvedTwin.nameIndex indexed otherIndexed
        exact ⟨rfl, slots, Nat.le_refl _, trivial, namedTwin⟩
      next inside =>
        rw [if_neg inside] at otherRest
        obtain ⟨⟨slot, draft⟩, declared, result⟩ := Outcome.bind_eq_ok.1 rest
        obtain ⟨⟨otherSlot, partner⟩, otherDeclared, otherResult⟩ :=
          Outcome.bind_eq_ok.1 otherRest
        cases result
        cases otherResult
        obtain ⟨rfl, below, declaredTwin⟩ :=
          resolvedTwin.current.declare declared otherDeclared
        exact ⟨rfl, _, declaredTwin.enough, below,
          resolvedTwin.write (declaredTwin.withSlots (Nat.le_refl _))⟩

theorem Twin.fewer {enough : Nat}
    (twin : Twin ⟨held, enough⟩ outer first second)
    (fewer : slots ≤ enough) :
    Twin ⟨held, slots⟩ outer first second :=
  ⟨twin.current.withSlots (Nat.le_trans fewer twin.current.enough),
    twin.enclosing, twin.finished⟩

theorem PairedValue.fewer {enough : Nat}
    (paired : PairedValue held enough outer new first second)
    (fewer : slots ≤ enough) :
    PairedValue held slots outer new first second :=
  ⟨⟨paired.toTwin.fewer fewer, paired.closed⟩, paired.last, paired.droppable⟩

/-- Both nests get an assignment, whose result may be taken back. -/
theorem Paired.assign {target : StoreTarget}
    (paired : Paired held slots outer new first second)
    (below : target.Below slots)
    (line : UInt32) :
    ∃ more, PairedValue held slots outer more
      ((first.emitStore target line).emitStatementNil line)
      ((second.emitStore target line).emitStatementNil line) := by
  cases target with
  | slot slot =>
      have access := paired.current.access
        (show Opcode.storeLocal.promoted? = some .storeHeap from
        rfl) rfl (Nat.lt_of_lt_of_le below paired.current.enough) line
      have stored := paired.last (paired.toTwin.write access)
        (closed_plain _ _ (by decide)) rfl rfl
      exact ⟨_, stored.toPaired.statementNil line⟩
  | global index =>
      have stored := paired.emit
        (show [index].length = Opcode.storeGlobal.operandCount from rfl) rfl
        (by decide) line
      exact ⟨_, stored.toPaired.statementNil line⟩

/-! ### Functions -/

/-- Bodies end in a return on the same line and are finished to twin
functions. -/
theorem PairedValue.finish
    (paired : PairedValue held slots outer new first second)
    (closed : Closed held) (line : UInt32) :
    (first.emitReturn line).current.finish.Twin
      (second.emitReturn line).current.finish := by
  obtain ⟨front, item, rfl, shared⟩ := paired.last
  have current := paired.current
  rw [← List.append_assoc] at current
  have returned := current.emit
    (show ([] : List UInt8).length = Opcode.return.operandCount from rfl)
    rfl (first.current.lastLine line)
  have sameLine := current.lastLine_eq shared line
  have other : (second.emitReturn line).current =
      second.current.emit .return [] (first.current.lastLine line) := by
        rw [← sameLine]; rfl
  rw [other]
  refine returned.finish (.append ?_ (closed_plain _ _ (by decide)))
  rw [List.append_assoc]
  exact closed.append paired.closed

/-- Leaving a function leads back to the drafts around it. -/
theorem PairedValue.leave {body otherBody : Nest}
    (paired : PairedValue held slots (page :: outer) new body otherBody)
    (closed : Closed held) (first second : Nest) (line : UInt32) :
    (body.leave first line).1.Twin (otherBody.leave second line).1 ∧
      Twin page outer (body.leave first line).2
        (otherBody.leave second line).2 := by
  refine ⟨paired.finish closed line, ?_⟩
  have enclosing : DraftsTwin (page :: outer) (body.emitReturn line).enclosing
      (otherBody.emitReturn line).enclosing := paired.enclosing
  have finished : (otherBody.emitReturn line).finished =
      (body.emitReturn line).finished := paired.finished
  unfold Nest.leave
  generalize body.emitReturn line = returned at enclosing finished ⊢
  generalize otherBody.emitReturn line = otherReturned at enclosing finished ⊢
  obtain ⟨current, drafts, count⟩ := returned
  obtain ⟨partner, partners, otherCount⟩ := otherReturned
  cases enclosing with
  | cons twin others => exact ⟨twin, others, finished⟩

/-- Both nests get the push of a closure of twin functions. -/
theorem Paired.emitClosure {template another : Template}
    (paired : Paired held slots outer new first second)
    (templates : template.Twin another)
    (emitted : first.emitClosure template line = .ok later)
    (otherEmitted : second.emitClosure another line = .ok other) :
    ∃ index, PairedValue held slots outer
      (new ++ [.plain .makeClosure [index] line]) later other := by
  obtain ⟨⟨index, draft⟩, pooled, result⟩ := Outcome.bind_eq_ok.1 emitted
  obtain ⟨⟨otherIndex, partner⟩, otherPooled, otherResult⟩ :=
    Outcome.bind_eq_ok.1 otherEmitted
  cases result
  cases otherResult
  rw [paired.finished] at otherPooled
  obtain ⟨rfl, written⟩ := paired.current.addConstant
    (.inr ⟨first.finished, template, another, rfl, rfl, templates⟩)
      pooled otherPooled
  have pooledPaired : Paired held slots outer new
      { first with current := draft, finished := first.finished + 1 }
      { second with current := partner, finished := second.finished + 1 } :=
    ⟨⟨written, paired.enclosing, congrArg (· + 1) paired.finished⟩,
      paired.closed⟩
  exact ⟨otherIndex, pooledPaired.emit rfl rfl (by decide) line⟩

/-- Functions whose bodies are lowered inside both nests become twins, and both
nests get the push of a closure of them. -/
theorem Twin.function
    {body otherBody pushed otherPushed : Nest} {parameters : List String}
    {draft : Draft}
    (twin : Twin ⟨held, slots⟩ outer first second)
    (started : Draft.start name parameters line = .ok draft)
    (lowered : ∀ {inner : List Item} {room : Nat},
      Twin ⟨inner, room⟩ (⟨held, slots⟩ :: outer) (first.enter draft line)
        (second.enter draft line) → ∃ code,
          PairedValue inner room (⟨held, slots⟩ :: outer) code body otherBody)
    (emitted : (body.leave first line).2.emitClosure (body.leave first line).1
      line = .ok pushed)
    (otherEmitted : (otherBody.leave second line).2.emitClosure
      (otherBody.leave second line).1 line = .ok otherPushed) :
    ∃ index, PairedValue held slots outer [.plain .makeClosure [index] line]
      pushed otherPushed := by
  have entered : Twin ⟨[.plain .comment [] line], 0⟩ (⟨held, slots⟩ :: outer)
      (first.enter draft line) (second.enter draft line) :=
    ⟨(Draft.start_twin started).addComment line,
      .cons twin.current twin.enclosing, twin.finished⟩
  obtain ⟨code, value⟩ := lowered entered
  obtain ⟨templates, closedTwin⟩ :=
    value.leave (closed_plain _ _ (by decide)) first second line
  exact closedTwin.paired.emitClosure templates emitted otherEmitted

/-! ### Choices and repetitions -/

/-- Both nests let a jump lead to the end of their code. -/
theorem Twin.patchJump {before after : List Item}
    {site otherSite : Nat} {itemLine : UInt32}
    (twin : Twin ⟨before ++ .plain opcode [255, 255] itemLine :: after, slots⟩
      outer first second)
    (noAccess : opcode.promoted? = none)
    (siteEq : site = extent .kept before)
    (otherSiteEq : otherSite = extent .elided before)
    (patched : first.patchJump site line = .ok later)
    (otherPatched : second.patchJump otherSite line = .ok other) :
    Twin ⟨before ++ .jump opcode (extent .kept after) (extent .elided after)
      itemLine :: after, slots⟩
        outer later other ∧
      (∀ nils, extent nils after ≤ 65535) ∧ other.current.removable = none := by
  obtain ⟨draft, patch, result⟩ := Outcome.bind_eq_ok.1 patched
  obtain ⟨partner, otherPatch, otherResult⟩ := Outcome.bind_eq_ok.1 otherPatched
  cases result
  cases otherResult
  have placed : Draft.Twin
      ⟨before ++ .plain opcode ([] ++ [255, 255]) itemLine :: after, slots⟩
      first.current second.current := twin.current
  obtain ⟨filled, small, fixed⟩ := placed.patchTo noAccess (by rw [siteEq]; rfl)
    (by rw [otherSiteEq]; rfl) patch otherPatch
  exact ⟨twin.write filled, small, fixed⟩

section Jumps

variable {afterCondition otherCondition afterConsequence otherConsequence
      elsePatched otherElse afterAlternative otherAlternative afterBody
      otherBody : Nest} {condition : List Item}

/-- Both nests get a choice. -/
theorem PairedValue.branch
    (decides : PairedValue held slots outer condition afterCondition
      otherCondition)
    (consequence : ∀ {inner : List Item},
      Twin ⟨inner, slots⟩ outer
        (afterCondition.emit .jumpIfFalse [255, 255] line)
        (otherCondition.emit .jumpIfFalse [255, 255] line) → ∃ code,
        PairedValue inner slots outer code afterConsequence otherConsequence)
    (elseLands : (afterConsequence.emit .jump [255, 255] line).patchJump
      afterCondition.offset line = .ok elsePatched)
    (otherElseLands : (otherConsequence.emit .jump [255, 255] line).patchJump
      otherCondition.offset line = .ok otherElse)
    (alternative : ∀ {inner : List Item},
      Twin ⟨inner, slots⟩ outer elsePatched otherElse → ∃ code,
        PairedValue inner slots outer code afterAlternative otherAlternative)
    (endLands : afterAlternative.patchJump afterConsequence.offset
      line = .ok later)
    (otherEndLands : otherAlternative.patchJump otherConsequence.offset line =
      .ok other) :
    ∃ code, PairedValue held slots outer code later other := by
  obtain ⟨choosing, chooses⟩ := consequence (decides.toTwin.emit rfl rfl line)
  obtain ⟨site, otherSite⟩ := decides.toTwin.offsets
  obtain ⟨endSite, otherEndSite⟩ := chooses.toTwin.offsets
  -- The first jump leads behind the second one.
  have jumped := chooses.toTwin.emit
    (show [255, 255].length = Opcode.jump.operandCount from rfl) rfl line
  rw [List.append_assoc, List.append_assoc (held ++ condition),
    List.singleton_append] at jumped
  obtain ⟨through, consequenceSmall, _⟩ :=
    jumped.patchJump rfl site otherSite elseLands otherElseLands
  obtain ⟨refusing, refuses⟩ := alternative through
  have sizes (nils : StatementNils) :
      extent nils (choosing ++ [.plain .jump [255, 255] line]) =
      extent nils choosing + 3 := by
    simp
  simp only [sizes] at refuses consequenceSmall
  generalize choiceEq : Item.jump .jumpIfFalse (extent .kept choosing + 3)
    (extent .elided choosing + 3) line = choice at refuses
  have moved (nils : StatementNils) :
      extent nils
          (held ++ condition ++
            [.plain .jumpIfFalse [255, 255] line] ++ choosing) =
        extent nils (held ++ condition ++ [choice] ++ choosing) := by
    simp only [extent_append, ← choiceEq, extent_jump, extent_plain,
      List.length_cons, List.length_nil]
  -- The second jump leads behind the alternative.
  have whole :
      Twin ⟨(held ++ condition ++ [choice] ++ choosing) ++ .plain .jump
        [255, 255] line ::
      refusing, slots⟩ outer afterAlternative otherAlternative := by
    simpa using refuses.toTwin
  obtain ⟨finished, alternativeSmall, fixed⟩ :=
    whole.patchJump rfl (endSite.trans (moved _))
    (otherEndSite.trans (moved _)) endLands otherEndLands
  obtain ⟨front, item, refusingEq, shared⟩ := refuses.last
  refine ⟨condition ++
    ([choice] ++ (choosing ++ ([.jump .jump (extent .kept refusing)
    (extent .elided refusing) line] ++ refusing))),
    ⟨⟨by simpa using finished, ?_⟩, ?_, ?_⟩⟩
  · exact decides.closed.branch chooses.closed refuses.closed consequenceSmall
      alternativeSmall choiceEq.symm rfl
  · exact ⟨condition ++
      ([choice] ++ (choosing ++ ([.jump .jump (extent .kept refusing)
      (extent .elided refusing) line] ++ front))), item, by
        simp [refusingEq], shared⟩
  · exact fun remembered => (remembered fixed).elim

/-- Both nests get a repetition. -/
theorem PairedValue.loop {looped otherLooped : Draft}
    (start : Twin ⟨held, slots⟩ outer first second)
    (decides : PairedValue held slots outer condition afterCondition
      otherCondition)
    (body : ∀ {inner : List Item},
      Twin ⟨inner, slots⟩ outer
        (afterCondition.emit .jumpIfFalse [255, 255] line)
          (otherCondition.emit .jumpIfFalse [255, 255] line) → ∃ code,
            PairedValue inner slots outer code afterBody otherBody)
    (returns : (afterBody.discard .kept line).current.emitLoop first.offset
      line = .ok looped)
    (otherReturns : (otherBody.discard .elided line).current.emitLoop
      second.offset line = .ok otherLooped)
    (exitLands :
      ({ afterBody.discard .kept line with current := looped } : Nest).patchJump
        afterCondition.offset line = .ok later)
    (otherExitLands :
      ({ otherBody.discard .elided line with current := otherLooped } :
        Nest).patchJump otherCondition.offset line = .ok other) :
    ∃ code, Paired held slots outer code later other := by
  obtain ⟨whole, repeats⟩ := body (decides.toTwin.emit rfl rfl line)
  obtain ⟨repeating, discarded⟩ := repeats.discard line
  obtain ⟨destination, otherDestination⟩ := start.offsets
  obtain ⟨site, otherSite⟩ := decides.toTwin.offsets
  obtain ⟨size, otherSize⟩ := discarded.toTwin.offsets
  have distance (nils : StatementNils) :
      extent nils (held ++ condition ++ [.plain .jumpIfFalse [255, 255] line] ++
        repeating) + 3 -
          extent nils held =
        extent nils condition + 3 + extent nils repeating + 3 := by
    simp only [extent_append, extent_plain, List.length_cons, List.length_nil]
    omega
  simp only [Draft.emitLoop, destination, otherDestination]
    at returns otherReturns
  unfold Nest.offset at size otherSize
  rw [size, distance] at returns
  rw [otherSize, distance] at otherReturns
  split at returns
  next small =>
    split at otherReturns
    next otherSmall =>
      cases returns
      cases otherReturns
      have jumped :
          Twin ⟨held ++ condition ++ [.plain .jumpIfFalse [255, 255] line] ++
            repeating ++
          [.jump .loop (extent .kept condition + 3 + extent .kept repeating + 3)
            (extent .elided condition + 3 + extent .elided repeating + 3) line],
            slots⟩ outer _ _ :=
        discarded.toTwin.write (discarded.current.emitApart rfl rfl rfl line)
      generalize backEq : Item.jump .loop
        (extent .kept condition + 3 + extent .kept repeating + 3)
        (extent .elided condition + 3 + extent .elided repeating + 3) line =
          back at jumped
      rw [List.append_assoc, List.append_assoc (held ++ condition),
        List.singleton_append] at jumped
      obtain ⟨finished, _, _⟩ :=
        jumped.patchJump rfl site otherSite exitLands otherExitLands
      have sizes (nils : StatementNils) : extent nils (repeating ++ [back]) =
          extent nils repeating + 3 := by
        rw [extent_append, ← backEq, extent_jump]
      rw [sizes, sizes] at finished
      refine ⟨condition ++ ([.jump .jumpIfFalse (extent .kept repeating + 3)
        (extent .elided repeating + 3) line] ++ (repeating ++ [back])), by
          simpa using finished, ?_⟩
      refine decides.closed.loop discarded.closed
        (fun nils => ?_) rfl backEq.symm
      cases nils with
      | kept => exact small
      | elided => exact otherSmall
    next => cases otherReturns
  next => cases returns

end Jumps

/-- Both nests get an operator that takes two values. -/
theorem Paired.binary
    (op : BinaryOp)
    (paired : Paired held slots outer new first second)
    (line : UInt32) :
    ∃ more, PairedValue held slots outer more
      (if op.negated then (first.emit op.opcode [] line).emit .not [] line
        else first.emit op.opcode [] line)
      (if op.negated then (second.emit op.opcode [] line).emit .not [] line
        else second.emit op.opcode [] line) := by
  have applied : PairedValue held slots outer
      (new ++ [.plain op.opcode [] line])
      (first.emit op.opcode [] line) (second.emit op.opcode [] line) :=
    paired.emit (by cases op <;> rfl) (by cases op <;> rfl)
      (by cases op <;> decide) line
  split
  · exact ⟨_, applied.toPaired.emit rfl rfl (by decide) line⟩
  · exact ⟨_, applied⟩

/-! ### Attempts -/

/-- The registrations of clauses before their distances are patched. -/
def pendingItems : List ClauseItem → List Item
  | [] => []
  | (function, effect, line) :: clauses =>
      .plain .makeClosure [function] line :: .plain .setHandler
        [effect, 255, 255] line :: pendingItems clauses

/-- Where the handlers of so many clauses are registered. -/
def handlerSites : Nat → Nat → List Nat
  | _, 0 => []
  | start, count + 1 => (start + 2) :: handlerSites (start + 6) count

theorem extent_pendingItems (nils : StatementNils) (clauses : List ClauseItem) :
    extent nils (pendingItems clauses) = 6 * clauses.length := by
  induction clauses with
  | nil => rfl
  | cons clause others inner =>
      obtain ⟨function, effect, line⟩ := clause
      rw [pendingItems, extent_cons,
        extent_cons nils (.plain .setHandler _ _), inner]
      simp only [extent_plain, List.length_cons, List.length_nil]
      omega

/-- Both nests let the handlers of an attempt lead to its end. -/
theorem Twin.patchHandlers {clauses : List ClauseItem}
    {rest : List Item} {start origin : Nat}
    (twin : Twin ⟨held ++ (pendingItems clauses ++ rest), slots⟩ outer
      first second)
    (fixed : second.current.removable = none)
    (startEq : start = extent .kept held)
    (originEq : origin = extent .elided held)
    (patched : first.patchHandlers line
      (handlerSites start clauses.length) = .ok later)
    (otherPatched : second.patchHandlers line
      (handlerSites origin clauses.length) = .ok other) :
    Twin
      ⟨held ++ (registrationItems (extent .kept rest) (extent .elided rest)
        clauses ++ rest), slots⟩
        outer later other ∧
      other.current.removable = none ∧
      (clauses ≠ [] → ∀ nils, 6 * (clauses.length - 1) + extent nils rest ≤
        65535) := by
  induction clauses generalizing held first second start origin with
  | nil =>
      cases patched
      cases otherPatched
      exact ⟨twin, fixed, fun impossible => (impossible rfl).elim⟩
  | cons clause others inner =>
      obtain ⟨function, effect, clauseLine⟩ := clause
      obtain ⟨draft, patch, next⟩ := Outcome.bind_eq_ok.1 patched
      obtain ⟨partner, otherPatch, otherNext⟩ :=
        Outcome.bind_eq_ok.1 otherPatched
      have placed :
          Draft.Twin ⟨(held ++ [.plain .makeClosure [function] clauseLine]) ++
          .plain .setHandler ([effect] ++ [255, 255]) clauseLine ::
            (pendingItems others ++ rest), slots⟩
          first.current second.current := by
        simpa [pendingItems] using twin.current
      obtain ⟨filled, small, filledFixed⟩ := placed.patchTo rfl
        (by simp only [startEq, extent_append, extent_plain, List.length_cons,
          List.length_nil])
        (by simp only [originEq, extent_append, extent_plain, List.length_cons,
          List.length_nil])
        patch otherPatch
      have sizes (nils : StatementNils) :
          extent nils (pendingItems others ++ rest) =
          6 * others.length + extent nils rest := by
        rw [extent_append, extent_pendingItems]
      simp only [sizes] at filled small
      have onward : Twin ⟨(held ++ [.plain .makeClosure [function] clauseLine,
          .registration effect (6 * others.length + extent .kept rest)
            (6 * others.length + extent .elided rest) clauseLine]) ++
              (pendingItems others ++ rest), slots⟩
          outer { first with current := draft }
            { second with current := partner } := by
        simpa [Item.registration] using twin.write filled
      have size (nils : StatementNils) : extent nils (held ++
          [.plain .makeClosure [function] clauseLine,
            .registration effect (6 * others.length + extent .kept rest)
              (6 * others.length + extent .elided rest) clauseLine]) =
                extent nils held + 6 := by
        rw [extent_append, extent_cons, extent_plain, extent_registration]
        rfl
      obtain ⟨finished, finishedFixed, _⟩ :=
        inner onward filledFixed (by rw [startEq, size])
        (by rw [originEq, size]) next otherNext
      refine ⟨by simpa [registrationItems] using finished, finishedFixed,
        fun _ nils => ?_⟩
      have room := small nils
      simp only [List.length_cons]
      omega

/-- Both nests get an attempt. -/
theorem Twin.attempt {clauses : List ClauseItem}
    {afterBody otherBody : Nest} {start origin : Nat}
    (registered : Twin ⟨held ++ pendingItems clauses, slots⟩ outer first second)
    (body : ∀ {inner : List Item}, Twin ⟨inner, slots⟩ outer first second →
      ∃ code, PairedValue inner slots outer code afterBody otherBody)
    (startEq : start = extent .kept held)
    (originEq : origin = extent .elided held)
    (lands :
      (afterBody.emit .popHandlers [UInt8.ofNat clauses.length]
        line).patchHandlers line
          (handlerSites start clauses.length) = .ok later)
    (otherLands :
      (otherBody.emit .popHandlers [UInt8.ofNat clauses.length]
        line).patchHandlers line (handlerSites origin clauses.length) =
          .ok other) :
    ∃ code, PairedValue held slots outer code later other := by
  obtain ⟨code, value⟩ := body registered
  have popped := value.toTwin.emit
    (show [UInt8.ofNat clauses.length].length = Opcode.popHandlers.operandCount
      from rfl) rfl line
  rw [List.append_assoc, List.append_assoc] at popped
  obtain ⟨finished, fixed, small⟩ :=
    popped.patchHandlers rfl startEq originEq lands otherLands
  have sizes (nils : StatementNils) :
      extent nils
          (code ++ [.plain .popHandlers [UInt8.ofNat clauses.length] line]) =
        extent nils code + 2 := by
    simp
  simp only [sizes] at finished small
  exact ⟨_, ⟨⟨finished, value.closed.attempt rfl small⟩,
    ⟨registrationItems (extent .kept code + 2) (extent .elided code + 2)
      clauses ++ code, _,
      (List.append_assoc _ _ _).symm, rfl⟩, fun remembered =>
        (remembered fixed).elim⟩⟩

/-- Both nests get the registration of one more clause. -/
theorem Paired.register {index : UInt8}
    {effect otherEffect : UInt8} {label : String}
    (pushed : Paired held slots outer [.plain .makeClosure [index] line]
      first second)
    (named : first.nameIndex label line = .ok (effect, later))
    (otherNamed : second.nameIndex label line = .ok (otherEffect, other)) :
    otherEffect = effect ∧
      later.offset = extent .kept held + 2 ∧
      other.offset = extent .elided held + 2 ∧
      Twin ⟨held ++ pendingItems [(index, effect, line)], slots⟩ outer
        (later.emit .setHandler [effect, 255, 255] line)
        (other.emit .setHandler [otherEffect, 255, 255] line) := by
  obtain ⟨rfl, twin⟩ := pushed.toTwin.nameIndex named otherNamed
  obtain ⟨site, otherSite⟩ := twin.offsets
  have registered := twin.emit
    (show [otherEffect, 255, 255].length = Opcode.setHandler.operandCount
      from rfl) rfl line
  rw [List.append_assoc] at registered
  exact ⟨rfl, site.trans (by simp), otherSite.trans (by simp), registered⟩

end Nest

open Nest

mutual

/-- Both ways to lower an expression append one list of items. -/
theorem lowerExpr_paired
    (expression : Expr)
    {held : List Item} {slots : Nat} {outer : List Page}
    {first second later other : Nest}
    (twin : Twin ⟨held, slots⟩ outer first second)
    (kept : lowerExpr .kept expression first = .ok later)
    (elided : lowerExpr .elided expression second = .ok other) :
    ∃ new, PairedValue held slots outer new later other := by
  cases expression with
  | ident name position =>
      simp only [lowerExpr] at kept elided
      exact twin.loadVariable kept elided
  | literal value position =>
      simp only [lowerExpr] at kept elided
      exact twin.literal kept elided
  | binary op left right position =>
      obtain ⟨_, _, leftKept, rightKept, rfl⟩ := Lowered.binary kept
      obtain ⟨_, _, leftElided, rightElided, rfl⟩ := Lowered.binary elided
      obtain ⟨leftItems, leftPaired⟩ :=
        lowerExpr_paired left twin leftKept leftElided
      obtain ⟨rightItems, rightPaired⟩ :=
        lowerExpr_paired right leftPaired.toTwin rightKept rightElided
      exact (leftPaired.toPaired.append rightPaired.toPaired).binary op
        position.debugLine
  | unary op operand position =>
      obtain ⟨_, operandKept, rfl⟩ := Lowered.unary kept
      obtain ⟨_, operandElided, rfl⟩ := Lowered.unary elided
      obtain ⟨items, paired⟩ :=
        lowerExpr_paired operand twin operandKept operandElided
      cases op with
      | neg =>
          exact ⟨_, paired.toPaired.emit rfl rfl (by decide) position.debugLine⟩
      | not =>
          exact ⟨_, paired.toPaired.emit rfl rfl (by decide) position.debugLine⟩
  | call callee arguments position =>
      obtain ⟨_, _, calleeKept, argumentsKept, _, rfl⟩ := Lowered.call kept
      obtain ⟨_, _, calleeElided, argumentsElided, _, rfl⟩ :=
        Lowered.call elided
      obtain ⟨calleeItems, calleePaired⟩ :=
        lowerExpr_paired callee twin calleeKept calleeElided
      obtain ⟨argumentItems, argumentsPaired⟩ :=
        lowerArguments_paired arguments calleePaired.toTwin argumentsKept
          argumentsElided
      exact ⟨_, (calleePaired.toPaired.append argumentsPaired).emit rfl rfl
        (by decide) position.debugLine⟩
  | assign target value position =>
      obtain ⟨name, place, _, _, targeted, rfl, valueKept, found, rfl⟩ :=
        Lowered.assign kept
      obtain ⟨_, _, _, _, otherTargeted, ⟨⟩, valueElided, otherFound, rfl⟩ :=
        Lowered.assign elided
      obtain ⟨items, paired⟩ :=
        lowerExpr_paired value twin valueKept valueElided
      obtain ⟨rfl, enough, fewer, below, targetTwin⟩ :=
        paired.toTwin.storeTarget found otherFound
      have targetPaired :
          Paired held enough outer items targeted otherTargeted :=
        ⟨targetTwin, paired.closed⟩
      obtain ⟨new, assigned⟩ := targetPaired.assign below position.debugLine
      exact ⟨new, assigned.fewer fewer⟩
  | define name parameters body position =>
      obtain ⟨_, _, _, _, _, found, started, bodyKept, emitted, rfl⟩ :=
        Lowered.define kept
      obtain ⟨_, _, _, _, _, otherFound, otherStarted, bodyElided,
          otherEmitted, rfl⟩ := Lowered.define elided
      cases started.symm.trans otherStarted
      obtain ⟨rfl, enough, fewer, below, targetTwin⟩ :=
        twin.storeTarget found otherFound
      obtain ⟨index, paired⟩ := targetTwin.function started
        (fun entered => lowerBlock_paired body entered bodyKept bodyElided)
          emitted otherEmitted
      obtain ⟨new, assigned⟩ := paired.toPaired.assign below position.debugLine
      exact ⟨new, assigned.fewer fewer⟩
  | block body =>
      simp only [lowerExpr] at kept elided
      exact lowerBlock_paired body twin kept elided
  | branch condition consequence alternative position =>
      obtain ⟨_, _, _, _, conditionKept, consequenceKept, elseLands,
          alternativeKept, endLands⟩ := Lowered.branch kept
      obtain ⟨_, _, _, _, conditionElided, consequenceElided, otherElseLands,
        alternativeElided, otherEndLands⟩ := Lowered.branch elided
      obtain ⟨items, decides⟩ :=
        lowerExpr_paired condition twin conditionKept conditionElided
      exact decides.branch
        (fun inside => lowerBlock_paired consequence inside consequenceKept
          consequenceElided)
        elseLands otherElseLands
        (fun inside => lowerOptional_paired alternative inside alternativeKept
          alternativeElided)
        endLands otherEndLands
  | loop condition body position =>
      obtain ⟨_, _, _, _, conditionKept, bodyKept, returns, exitLands, rfl⟩ :=
        Lowered.loop kept
      obtain ⟨_, _, _, _, conditionElided, bodyElided, otherReturns,
          otherExitLands, rfl⟩ := Lowered.loop elided
      have labelled : Twin ⟨held, slots⟩ outer
          { first with current := first.current.label }
          { second with current := second.current.label } :=
        twin.write (twin.current.remember none none)
      obtain ⟨items, decides⟩ :=
        lowerExpr_paired condition labelled conditionKept conditionElided
      obtain ⟨new, paired⟩ := decides.loop labelled
        (fun inside => lowerBlock_paired body inside bodyKept bodyElided)
        returns otherReturns exitLands otherExitLands
      exact ⟨_, paired.statementNil position.debugLine⟩
  | attempt body clauses position =>
      obtain ⟨_, _, _, _, clausesKept, bodyKept, lands⟩ := Lowered.attempt kept
      obtain ⟨_, _, _, _, clausesElided, bodyElided, otherLands⟩ :=
        Lowered.attempt elided
      obtain ⟨items, registeredTwin, rfl, rfl, count⟩ :=
        lowerClauses_paired clauses twin clausesKept clausesElided
      rw [← count] at lands otherLands
      exact registeredTwin.attempt
        (fun inside => lowerBlock_paired body inside bodyKept bodyElided) rfl
          rfl lands otherLands
  | perform effect payload position =>
      obtain ⟨_, payloadKept, emitted⟩ := Lowered.perform kept
      obtain ⟨_, payloadElided, otherEmitted⟩ := Lowered.perform elided
      obtain ⟨items, paired⟩ :=
        lowerOptional_paired payload twin payloadKept payloadElided
      exact paired.toPaired.emitNamed (.inr rfl) emitted otherEmitted

theorem lowerOptional_paired
    (expression : Option Expr)
    {line : UInt32} {held : List Item} {slots : Nat} {outer : List Page}
    {first second later other : Nest}
    (twin : Twin ⟨held, slots⟩ outer first second)
    (kept : lowerOptional .kept expression line first = .ok later)
    (elided : lowerOptional .elided expression line second = .ok other) :
    ∃ new, PairedValue held slots outer new later other := by
  cases expression with
  | some expression =>
      simp only [lowerOptional] at kept elided
      exact lowerExpr_paired expression twin kept elided
  | none =>
      simp only [lowerOptional] at kept elided
      cases kept
      cases elided
      exact ⟨_, twin.paired.emit rfl rfl (by decide) line⟩

theorem lowerBlock_paired
    (block : Block)
    {held : List Item} {slots : Nat} {outer : List Page}
    {first second later other : Nest}
    (twin : Twin ⟨held, slots⟩ outer first second)
    (kept : lowerBlock .kept block first = .ok later)
    (elided : lowerBlock .elided block second = .ok other) :
    ∃ new, PairedValue held slots outer new later other := by
  obtain ⟨expressions, position⟩ := block
  rcases Lowered.block kept with ⟨rfl, rfl⟩ | ⟨some, sequenceKept⟩ <;>
    rcases Lowered.block elided with ⟨empty, rfl⟩ | ⟨otherSome, sequenceElided⟩
  · exact ⟨_, twin.paired.statementNil position.debugLine⟩
  · exact absurd rfl otherSome
  · exact absurd empty some
  · exact lowerSequence_paired expressions some twin sequenceKept sequenceElided

theorem lowerSequence_paired
    (expressions : List Expr) (some : expressions ≠ [])
    {held : List Item} {slots : Nat} {outer : List Page}
    {first second later other : Nest}
    (twin : Twin ⟨held, slots⟩ outer first second)
    (kept : lowerSequence .kept expressions first = .ok later)
    (elided : lowerSequence .elided expressions second = .ok other) :
    ∃ new, PairedValue held slots outer new later other := by
  cases expressions with
  | nil => exact (some rfl).elim
  | cons expression others =>
      obtain ⟨_, firstKept, rest⟩ := Lowered.sequence kept
      obtain ⟨_, firstElided, otherRest⟩ := Lowered.sequence elided
      obtain ⟨items, paired⟩ :=
        lowerExpr_paired expression twin firstKept firstElided
      rcases rest with ⟨rfl, rfl⟩ | ⟨more, rest⟩ <;>
        rcases otherRest with ⟨single, rfl⟩ | ⟨otherMore, otherRest⟩
      · exact ⟨items, paired⟩
      · exact absurd rfl otherMore
      · exact absurd single more
      · obtain ⟨dropped, discarded⟩ :=
          paired.discard expression.position.debugLine
        obtain ⟨new, othersPaired⟩ :=
          lowerSequence_paired others more discarded.toTwin rest otherRest
        exact ⟨_, discarded.value othersPaired⟩

theorem lowerArguments_paired
    (arguments : List Expr)
    {held : List Item} {slots : Nat} {outer : List Page}
    {first second later other : Nest}
    (twin : Twin ⟨held, slots⟩ outer first second)
    (kept : lowerArguments .kept arguments first = .ok later)
    (elided : lowerArguments .elided arguments second = .ok other) :
    ∃ new, Paired held slots outer new later other := by
  cases arguments with
  | nil =>
      cases kept
      cases elided
      exact ⟨_, twin.paired⟩
  | cons argument others =>
      obtain ⟨_, firstKept, rest⟩ := Lowered.arguments kept
      obtain ⟨_, firstElided, otherRest⟩ := Lowered.arguments elided
      obtain ⟨items, paired⟩ :=
        lowerExpr_paired argument twin firstKept firstElided
      obtain ⟨new, othersPaired⟩ :=
        lowerArguments_paired others paired.toTwin rest otherRest
      exact ⟨_, paired.toPaired.append othersPaired⟩

theorem lowerClauses_paired
    (clauses : List Clause)
    {held : List Item} {slots : Nat} {outer : List Page}
    {first second later other : Nest} {places otherPlaces : List Nat}
    (twin : Twin ⟨held, slots⟩ outer first second)
    (kept : lowerClauses .kept clauses first = .ok (places, later))
    (elided : lowerClauses .elided clauses second = .ok (otherPlaces, other)) :
    ∃ items, Twin ⟨held ++ pendingItems items, slots⟩ outer later other ∧
      places = handlerSites (extent .kept held) items.length ∧
      otherPlaces = handlerSites (extent .elided held) items.length ∧
      items.length = clauses.length := by
  cases clauses with
  | nil =>
      cases kept
      cases elided
      exact ⟨[], by simpa [pendingItems] using twin, rfl, rfl, rfl⟩
  | cons clause others =>
      obtain ⟨effect, parameter, body, position⟩ := clause
      obtain ⟨_, _, _, _, _, _, started, bodyKept, emitted, indexed,
          othersKept, rfl⟩ := Lowered.clauses kept
      obtain ⟨_, _, _, otherIndex, _, _, otherStarted, bodyElided, otherEmitted,
        otherIndexed, othersElided, rfl⟩ := Lowered.clauses elided
      cases started.symm.trans otherStarted
      obtain ⟨function, paired⟩ := twin.function started
        (fun entered => lowerBlock_paired body entered bodyKept bodyElided)
          emitted otherEmitted
      obtain ⟨rfl, site, otherSite, registered⟩ :=
        paired.toPaired.register indexed otherIndexed
      obtain ⟨items, othersTwin, rfl, rfl, count⟩ :=
        lowerClauses_paired others registered othersKept othersElided
      refine ⟨(function, otherIndex, position.debugLine) :: items,
        ?_, ?_, ?_, ?_⟩
      · simpa [pendingItems] using othersTwin
      · rw [site, extent_append, extent_pendingItems]
        rfl
      · rw [otherSite, extent_append, extent_pendingItems]
        rfl
      · rw [List.length_cons, List.length_cons, count]

end

/-- The two functions that a program is compiled to are twins. -/
theorem Block.compileWith_twin {program : Block}
    {plain script : Template}
    (kept : program.compileWith .kept = .ok plain)
    (elided : program.compileWith .elided = .ok script) :
    plain.Twin script := by
  obtain ⟨draft, _, started, bodyKept, rfl⟩ := Lowered.program kept
  obtain ⟨_, _, otherStarted, bodyElided, rfl⟩ := Lowered.program elided
  cases started.symm.trans otherStarted
  have start : Twin ⟨[], 0⟩ [] ⟨draft, [], 0⟩ ⟨draft, [], 0⟩ :=
    ⟨Draft.start_twin started, .nil, rfl⟩
  obtain ⟨items, paired⟩ := lowerBlock_paired program start bodyKept bodyElided
  exact paired.finish closed_nil _

end EffectScript
