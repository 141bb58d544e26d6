import EffectScript.Proofs.Assembly

/-!
# Two codes side by side

The compiler writes the same code in two ways: with every statement's result
pushed and popped, or with the push removed and no pop. Both are read off one
list of *items*. Most items are shared by both codes; only the distances of
their jumps differ. An item that is dropped stands for a push and a pop in the
one code and for nothing in the other.

The codes *meet* at the offsets between items. A list of items is *closed* when
its jumps lead from one such place to another. Handlers *land* behind a shared
item, so that two of them land at one offset in both codes or in none.
-/

namespace EffectScript

/-- A piece of code as both ways write it. -/
inductive Item where
  /-- An operation of both codes, with its operands in either. -/
  | shared (opcode : Opcode) (kept elided : List UInt8) (line : UInt32)
  /-- A result that is pushed and popped in one code and elided in the other. -/
  | dropped (pushLine popLine : UInt32)

namespace Item

/-- What an item becomes in one of the codes. -/
def emissions (nils : StatementNils) : Item → List Emission
  | .shared opcode kept elided _ =>
      match nils with
      | .kept => [⟨opcode, kept⟩]
      | .elided => [⟨opcode, elided⟩]
  | .dropped _ _ =>
      match nils with
      | .kept => [⟨.pushNil, []⟩, ⟨.pop, []⟩]
      | .elided => []

/-- The lines of the bytes that an item becomes. -/
def lines (nils : StatementNils) : Item → List UInt32
  | .shared _ kept elided line =>
      match nils with
      | .kept => List.replicate (kept.length + 1) line
      | .elided => List.replicate (elided.length + 1) line
  | .dropped pushLine popLine =>
      match nils with
      | .kept => [pushLine, popLine]
      | .elided => []

/-- Whether both codes have the item. -/
def isShared : Item → Bool
  | .shared .. => true
  | .dropped .. => false

/-- An operation with the same operands in both codes. -/
def plain (opcode : Opcode) (operands : List UInt8) (line : UInt32) : Item :=
  .shared opcode operands operands line

/-- A jump over a distance in either code. -/
def jump (opcode : Opcode) (kept elided : Nat) (line : UInt32) : Item :=
  .shared opcode (Instruction.shortBytes kept)
    (Instruction.shortBytes elided) line

/-- The registration of a handler whose attempt ends after a distance in either
code. -/
def registration (effect : UInt8) (kept elided : Nat) (line : UInt32) : Item :=
  .shared .setHandler (effect :: Instruction.shortBytes kept)
    (effect :: Instruction.shortBytes elided) line

end Item

/-- What items become in one of the codes. -/
def written (nils : StatementNils) (items : List Item) : List Emission :=
  items.flatMap (Item.emissions nils)

/-- The lines of the bytes that items become. -/
def lineTable (nils : StatementNils) (items : List Item) : List UInt32 :=
  items.flatMap (Item.lines nils)

/-- How many bytes items take in one of the codes. -/
def extent (nils : StatementNils) (items : List Item) : Nat :=
  totalSize (written nils items)

section Sizes

variable (nils : StatementNils) (item : Item) (items others : List Item)

@[simp]
theorem written_nil : written nils [] = [] := rfl

@[simp]
theorem written_cons :
    written nils (item :: items) = item.emissions nils ++
      written nils items := rfl

@[simp]
theorem written_append :
    written nils (items ++ others) = written nils items ++
      written nils others := by
  simp [written]

@[simp]
theorem lineTable_append :
    lineTable nils (items ++ others) = lineTable nils items ++
      lineTable nils others := by
  simp [lineTable]

@[simp]
theorem extent_nil : extent nils [] = 0 := rfl

@[simp]
theorem extent_append :
    extent nils (items ++ others) = extent nils items + extent nils others := by
  simp [extent]

theorem extent_cons :
    extent nils (item :: items) = extent nils [item] + extent nils items :=
  extent_append nils [item] items

@[simp]
theorem extent_plain (opcode : Opcode) (operands : List UInt8) (line : UInt32) :
    extent nils [.plain opcode operands line] = operands.length + 1 := by
  cases nils <;> rfl

@[simp]
theorem extent_jump (opcode : Opcode) (kept elided : Nat) (line : UInt32) :
    extent nils [.jump opcode kept elided line] = 3 := by
  cases nils <;> rfl

@[simp]
theorem extent_registration
    (effect : UInt8) (kept elided : Nat) (line : UInt32) :
    extent nils [.registration effect kept elided line] = 4 := by
  cases nils <;> rfl

/-- Every byte has a line. -/
theorem length_lineTable :
    (lineTable nils items).length = extent nils items := by
  induction items with
  | nil => rfl
  | cons item others inner =>
      have single : (item.lines nils).length = extent nils [item] := by
        cases item <;> cases nils <;>
          simp [Item.lines, extent, Item.emissions, Emission.size]
      rw [extent_cons, ← inner, ← single, ← List.length_append]
      rfl

end Sizes

/-! ## Places -/

/-- From a pair of offsets on, the items lead to another pair. -/
def Meets (items : List Item) (start origin kept elided : Nat) : Prop :=
  ∃ before after, items = before ++ after ∧ kept = start + extent .kept before ∧
    elided = origin + extent .elided before

/-- From a pair of offsets on, the items lead to another pair behind a shared
item. -/
def Landing (items : List Item) (start origin kept elided : Nat) : Prop :=
  ∃ before item after, items = before ++ item :: after ∧ item.isShared ∧
    kept = start + extent .kept (before ++ [item]) ∧
    elided = origin + extent .elided (before ++ [item])

section Places

variable {items others : List Item} {start origin kept elided : Nat}

theorem Landing.meets (landing : Landing items start origin kept elided) :
    Meets items start origin kept elided := by
  obtain ⟨before, item, after, rfl, _, keptEq, elidedEq⟩ := landing
  exact ⟨before ++ [item], after, by simp, keptEq, elidedEq⟩

theorem Meets.left
    (meets : Meets items start origin kept elided)
    (others : List Item) :
    Meets (items ++ others) start origin kept elided := by
  obtain ⟨before, after, rfl, keptEq, elidedEq⟩ := meets
  exact ⟨before, after ++ others, by simp, keptEq, elidedEq⟩

theorem Meets.right
    (meets : Meets others (start + extent .kept items)
      (origin + extent .elided items) kept elided) :
    Meets (items ++ others) start origin kept elided := by
  obtain ⟨before, after, rfl, rfl, rfl⟩ := meets
  exact ⟨items ++ before, after, by simp, by simp [Nat.add_assoc], by
    simp [Nat.add_assoc]⟩

theorem Landing.left
    (landing : Landing items start origin kept elided)
    (others : List Item) :
    Landing (items ++ others) start origin kept elided := by
  obtain ⟨before, item, after, rfl, shared, keptEq, elidedEq⟩ := landing
  exact ⟨before, item, after ++ others, by simp, shared, keptEq, elidedEq⟩

theorem Landing.right
    (landing : Landing others (start + extent .kept items)
      (origin + extent .elided items) kept elided) :
    Landing (items ++ others) start origin kept elided := by
  obtain ⟨before, item, after, rfl, shared, rfl, rfl⟩ := landing
  exact ⟨items ++ before, item, after, by simp, shared, by simp [Nat.add_assoc],
    by simp [Nat.add_assoc]⟩

/-- The items lead to their start. -/
theorem Meets.here (items : List Item) (start origin : Nat) :
    Meets items start origin start origin :=
  ⟨[], items, rfl, rfl, rfl⟩

/-- Items that end in a shared one lead to their end. -/
theorem Landing.there {item : Item}
    (shared : item.isShared) (start origin : Nat) :
    Landing (items ++ [item]) start origin
      (start + extent .kept (items ++ [item]))
      (origin + extent .elided (items ++ [item])) :=
  ⟨items, item, [], rfl, shared, rfl, rfl⟩

end Places

/-! ## Closed items -/

/-- The jumps and registrations of an item lead to places. -/
def Item.Leads (meets lands : Nat → Nat → Prop) (kept elided : Nat) :
    Item → Prop
  | .dropped _ _ => True
  | .shared opcode first second _ =>
      match opcode with
      | .jump | .jumpIfFalse =>
          ∃ far near, far ≤ 65535 ∧ near ≤ 65535 ∧
            first = Instruction.shortBytes far ∧
            second = Instruction.shortBytes near ∧
            meets (kept + 3 + far) (elided + 3 + near)
      | .loop =>
          ∃ far near back origin, far ≤ 65535 ∧ near ≤ 65535 ∧
            first = Instruction.shortBytes far ∧
            second = Instruction.shortBytes near ∧ meets back origin ∧
            back + far = kept + 3 ∧
            origin + near = elided + 3
      | .setHandler =>
          ∃ effect far near, far ≤ 65535 ∧ near ≤ 65535 ∧
            first = effect :: Instruction.shortBytes far ∧
            second = effect :: Instruction.shortBytes near ∧
            lands (kept + 4 + far) (elided + 4 + near)
      | _ => first = second

/-- The jumps and registrations of all items lead to places. -/
def AllLead (meets lands : Nat → Nat → Prop) : Nat → Nat → List Item → Prop
  | _, _, [] => True
  | kept, elided, item :: others =>
      item.Leads meets lands kept elided ∧
        AllLead meets lands (kept + extent .kept [item])
          (elided + extent .elided [item]) others

/-- The jumps and registrations of the items stay among them. -/
def Closed (items : List Item) : Prop :=
  ∀ kept elided, AllLead (Meets items kept elided) (Landing items kept elided)
    kept elided items

section Closing

variable {meets lands more further : Nat → Nat → Prop} {kept elided : Nat}
  {items others : List Item} {item : Item}

theorem Item.Leads.mono
    (leads : item.Leads meets lands kept elided)
    (meetsMore : ∀ kept elided, meets kept elided → more kept elided)
    (landsMore : ∀ kept elided, lands kept elided → further kept elided) :
    item.Leads more further kept elided := by
  cases item with
  | dropped pushLine popLine => trivial
  | shared opcode first second line =>
      cases opcode with
      | jump =>
          obtain ⟨far, near, farFits, nearFits, firstEq, secondEq, goal⟩ :=
            leads
          exact ⟨far, near, farFits, nearFits, firstEq, secondEq,
            meetsMore _ _ goal⟩
      | jumpIfFalse =>
          obtain ⟨far, near, farFits, nearFits, firstEq, secondEq, goal⟩ :=
            leads
          exact ⟨far, near, farFits, nearFits, firstEq, secondEq,
            meetsMore _ _ goal⟩
      | loop =>
          obtain ⟨far, near, back, origin, farFits, nearFits, firstEq, secondEq,
            goal, levels⟩ := leads
          exact ⟨far, near, back, origin, farFits, nearFits, firstEq, secondEq,
            meetsMore _ _ goal, levels⟩
      | setHandler =>
          obtain ⟨effect, far, near, farFits, nearFits, firstEq, secondEq,
            goal⟩ := leads
          exact ⟨effect, far, near, farFits, nearFits, firstEq, secondEq,
            landsMore _ _ goal⟩
      | _ => exact leads

theorem AllLead.mono
    (leads : AllLead meets lands kept elided items)
    (meetsMore : ∀ kept elided, meets kept elided → more kept elided)
    (landsMore : ∀ kept elided, lands kept elided → further kept elided) :
    AllLead more further kept elided items := by
  induction items generalizing kept elided with
  | nil => trivial
  | cons item others inner =>
      exact ⟨leads.1.mono meetsMore landsMore, inner leads.2⟩

theorem allLead_append :
    AllLead meets lands kept elided (items ++ others) ↔
      AllLead meets lands kept elided items ∧
        AllLead meets lands (kept + extent .kept items)
          (elided + extent .elided items) others := by
  induction items generalizing kept elided with
  | nil => simp [AllLead]
  | cons item rest inner =>
      rw [List.cons_append, AllLead, AllLead, inner,
        extent_cons .kept item rest, extent_cons .elided item rest, and_assoc,
        Nat.add_assoc, Nat.add_assoc]

/-- Closed items lead to places of any items that hold them. -/
theorem Closed.within
    (closed : Closed items) (before after : List Item) (kept elided : Nat) :
    AllLead (Meets (before ++ (items ++ after)) kept elided)
      (Landing (before ++ (items ++ after)) kept elided)
      (kept + extent .kept before) (elided + extent .elided before) items :=
  (closed _ _).mono (fun _ _ meets => (meets.left after).right)
    (fun _ _ lands => (lands.left after).right)

theorem closed_nil : Closed [] := fun _ _ => trivial

theorem Closed.append (first : Closed items) (second : Closed others) :
    Closed (items ++ others) := by
  intro kept elided
  refine allLead_append.2 ⟨?_, ?_⟩
  · simpa using first.within [] others kept elided
  · simpa using second.within items [] kept elided

/-- An operation that is neither a jump nor the registration of a handler. -/
theorem closed_plain {opcode : Opcode}
    (operands : List UInt8) (line : UInt32)
    (onward : opcode ≠ .jump ∧ opcode ≠ .jumpIfFalse ∧ opcode ≠ .loop ∧
      opcode ≠ .setHandler) :
    Closed [.plain opcode operands line] := by
  intro kept elided
  refine ⟨?_, trivial⟩
  obtain ⟨noJump, noChoice, noLoop, noHandler⟩ := onward
  cases opcode with
  | jump => exact (noJump rfl).elim
  | jumpIfFalse => exact (noChoice rfl).elim
  | loop => exact (noLoop rfl).elim
  | setHandler => exact (noHandler rfl).elim
  | _ => rfl

theorem closed_dropped (pushLine popLine : UInt32) :
    Closed [.dropped pushLine popLine] :=
  fun _ _ => ⟨trivial, trivial⟩

variable {condition consequence alternative body : List Item} {line : UInt32}

/-- The jump from one place of some items leads to another one. -/
theorem allLead_jump {opcode : Opcode}
    (jumps : opcode = .jump ∨ opcode = .jumpIfFalse)
    {start origin far near : Nat} {before after : List Item}
    (split : items = before ++ after)
    (farFits : far ≤ 65535) (nearFits : near ≤ 65535)
    (keptLands : start + 3 + far = kept + extent .kept before)
    (elidedLands : origin + 3 + near = elided + extent .elided before) :
    AllLead (Meets items kept elided) lands start origin
      [.jump opcode far near line] := by
  have goal : Meets items kept elided (start + 3 + far) (origin + 3 + near) :=
    ⟨before, after, split, keptLands, elidedLands⟩
  rcases jumps with rfl | rfl
  · exact ⟨⟨far, near, farFits, nearFits, rfl, rfl, goal⟩, trivial⟩
  · exact ⟨⟨far, near, farFits, nearFits, rfl, rfl, goal⟩, trivial⟩

/-- Closed items between others, with offsets as they are counted from item to
item. -/
theorem Closed.among
    (closed : Closed items)
    {before after : List Item} {start origin : Nat}
    (whole : others = before ++ (items ++ after))
    (startEq : start = kept + extent .kept before)
    (originEq : origin = elided + extent .elided before) :
    AllLead (Meets others kept elided) (Landing others kept elided) start
      origin items := by
  rw [whole, startEq, originEq]
  exact closed.within before after kept elided

variable {choice skip : Item}

/-- A choice between two closed ways. -/
theorem Closed.branch
    (conditionClosed : Closed condition)
    (consequenceClosed : Closed consequence)
    (alternativeClosed : Closed alternative)
    (consequenceSmall : ∀ nils, extent nils consequence + 3 ≤ 65535)
    (alternativeSmall : ∀ nils, extent nils alternative ≤ 65535)
    (choiceEq : choice = .jump .jumpIfFalse (extent .kept consequence + 3)
      (extent .elided consequence + 3) line)
    (skipEq : skip = .jump .jump (extent .kept alternative)
      (extent .elided alternative) line) :
    Closed
      (condition ++
        ([choice] ++ (consequence ++ ([skip] ++ alternative)))) := by
  have choiceSize (nils : StatementNils) : extent nils [choice] = 3 := by
    rw [choiceEq, extent_jump]
  have skipSize (nils : StatementNils) : extent nils [skip] = 3 := by
    rw [skipEq, extent_jump]
  intro kept elided
  refine allLead_append.2
    ⟨?_, allLead_append.2
      ⟨?_, allLead_append.2 ⟨?_, allLead_append.2 ⟨?_, ?_⟩⟩⟩⟩
  · exact conditionClosed.within [] _ kept elided
  · rw [choiceEq]
    refine allLead_jump (.inr rfl)
      (show _ = (condition ++ ([choice] ++ (consequence ++ [skip]))) ++
        alternative by simp [choiceEq])
      (consequenceSmall _) (consequenceSmall _) ?_ ?_ <;>
      simp only [extent_append, choiceSize, skipSize] <;> omega
  · refine consequenceClosed.among
      (show _ = (condition ++ [choice]) ++
        (consequence ++ ([skip] ++ alternative)) by simp) ?_ ?_ <;>
      simp only [extent_append, Nat.add_assoc]
  · rw [skipEq]
    refine allLead_jump (.inl rfl)
      (show _ = (condition ++
        ([choice] ++ (consequence ++ ([skip] ++ alternative)))) ++ [] by
        simp [skipEq])
      (alternativeSmall _) (alternativeSmall _) ?_ ?_ <;>
      simp only [extent_append, choiceSize, skipSize] <;> omega
  · refine alternativeClosed.among
      (show _ = (condition ++ ([choice] ++ (consequence ++ [skip]))) ++
        (alternative ++ []) by simp)
      ?_ ?_ <;>
      simp only [extent_append, Nat.add_assoc]

/-- A closed body that is repeated while a closed condition holds. -/
theorem Closed.loop
    (conditionClosed : Closed condition)
    (bodyClosed : Closed body)
    (small : ∀ nils, extent nils condition + 3 + extent nils body + 3 ≤ 65535)
    (choiceEq : choice = .jump .jumpIfFalse (extent .kept body + 3)
      (extent .elided body + 3) line)
    (skipEq : skip = .jump .loop
      (extent .kept condition + 3 + extent .kept body + 3)
        (extent .elided condition + 3 + extent .elided body + 3) line) :
    Closed (condition ++ ([choice] ++ (body ++ [skip]))) := by
  have choiceSize (nils : StatementNils) : extent nils [choice] = 3 := by
    rw [choiceEq, extent_jump]
  have skipSize (nils : StatementNils) : extent nils [skip] = 3 := by
    rw [skipEq, extent_jump]
  have keptSmall := small .kept
  have elidedSmall := small .elided
  intro kept elided
  refine allLead_append.2 ⟨?_, allLead_append.2 ⟨?_, allLead_append.2 ⟨?_, ?_⟩⟩⟩
  · exact conditionClosed.within [] _ kept elided
  · rw [choiceEq]
    refine allLead_jump (.inr rfl)
      (show _ = (condition ++ ([choice] ++ (body ++ [skip]))) ++ [] by
        simp [choiceEq])
      (by omega) (by omega) ?_ ?_ <;>
      simp only [extent_append, choiceSize, skipSize] <;> omega
  · refine bodyClosed.among
      (show _ = (condition ++ [choice]) ++ (body ++ [skip]) by simp) ?_ ?_ <;>
      simp only [extent_append, Nat.add_assoc]
  · rw [skipEq]
    refine ⟨⟨_, _, kept, elided, keptSmall, elidedSmall, rfl, rfl,
      Meets.here _ _ _, ?_, ?_⟩, trivial⟩ <;>
      simp only [choiceSize] <;> omega

/-! ## Attempts -/

/-- A clause of an attempt: the indices of its function and its effect, and its
line. -/
abbrev ClauseItem := UInt8 × UInt8 × UInt32

/-- The registrations of clauses; some bytes follow them up to the end of the
attempt. -/
def registrationItems (kept elided : Nat) : List ClauseItem → List Item
  | [] => []
  | (function, effect, line) :: clauses =>
      .plain .makeClosure [function] line ::
        .registration effect (6 * clauses.length + kept)
        (6 * clauses.length + elided) line ::
        registrationItems kept elided clauses

theorem extent_registrationItems
    (nils : StatementNils) (kept elided : Nat)
    (clauses : List ClauseItem) :
    extent nils (registrationItems kept elided clauses) =
      6 * clauses.length := by
  induction clauses with
  | nil => rfl
  | cons clause others inner =>
      obtain ⟨function, effect, line⟩ := clause
      rw [registrationItems, extent_cons,
        extent_cons nils (.registration _ _ _ _), inner]
      simp only [extent_plain, extent_registration, List.length_cons,
        List.length_nil]
      omega

/-- Registrations lead to the end of their attempt. -/
theorem allLead_registrationItems
    {far near start origin : Nat} {clauses : List ClauseItem}
    {goal landing : Nat}
    (lands : Landing items kept elided goal landing)
    (goalEq : start + 6 * clauses.length + far = goal)
    (landingEq : origin + 6 * clauses.length + near = landing)
    (farFits : clauses ≠ [] → 6 * (clauses.length - 1) + far ≤ 65535)
    (nearFits : clauses ≠ [] → 6 * (clauses.length - 1) + near ≤ 65535) :
    AllLead meets (Landing items kept elided) start origin
      (registrationItems far near clauses) := by
  induction clauses generalizing start origin with
  | nil => trivial
  | cons clause others inner =>
      obtain ⟨function, effect, line⟩ := clause
      have farRoom := farFits (List.cons_ne_nil _ _)
      have nearRoom := nearFits (List.cons_ne_nil _ _)
      simp only [List.length_cons, Nat.add_sub_cancel]
        at farRoom nearRoom goalEq landingEq
      have onward : start + 2 + 4 + (6 * others.length + far) = goal := by omega
      have arrives : origin + 2 + 4 + (6 * others.length + near) =
          landing := by omega
      refine ⟨rfl, ⟨effect, _, _, farRoom, nearRoom, rfl, rfl, ?_⟩,
        inner ?_ ?_ (fun _ => by omega) (fun _ => by omega)⟩
      · simp only [extent_plain, List.length_cons, List.length_nil,
          onward, arrives]
        exact lands
      · simp only [extent_plain, extent_registration, List.length_cons,
          List.length_nil]
        omega
      · simp only [extent_plain, extent_registration, List.length_cons,
          List.length_nil]
        omega

/-- A closed body under handlers. -/
theorem Closed.attempt {clauses : List ClauseItem}
    (bodyClosed : Closed body)
    {last : Item}
    (lastEq : last = .plain .popHandlers [UInt8.ofNat clauses.length] line)
    (small : clauses ≠ [] → ∀ nils, 6 * (clauses.length - 1) +
      (extent nils body + 2) ≤ 65535) :
    Closed
      (registrationItems (extent .kept body + 2)
        (extent .elided body + 2) clauses ++
      (body ++ [last])) := by
  have lastSize (nils : StatementNils) : extent nils [last] = 2 := by
    rw [lastEq, extent_plain]; rfl
  have shared : last.isShared := by rw [lastEq]; rfl
  intro kept elided
  refine allLead_append.2 ⟨?_, allLead_append.2 ⟨?_, ?_⟩⟩
  · rw [← List.append_assoc]
    refine allLead_registrationItems (Landing.there shared kept elided) ?_ ?_
      (fun some => small some _) (fun some => small some _) <;>
      simp only [extent_append, extent_registrationItems, lastSize] <;> omega
  · exact bodyClosed.among rfl rfl rfl
  · rw [lastEq]
    exact ⟨rfl, trivial⟩

end Closing

/-! ## Alignments of functions -/

/-- How the codes of two functions stand side by side. -/
inductive Alignment where
  /-- They are the same. -/
  | same
  /-- They are the two ways to write some items. -/
  | written (items : List Item)

namespace Alignment

/-- The codes meet at a pair of offsets. -/
def Meet : Alignment → Nat → Nat → Prop
  | .same, kept, elided => kept = elided
  | .written items, kept, elided => Meets items 0 0 kept elided

/-- Handlers land at a pair of offsets. -/
def Land : Alignment → Nat → Nat → Prop
  | .same, kept, elided => kept = elided
  | .written items, kept, elided => Landing items 0 0 kept elided

theorem Land.meet {alignment : Alignment}
    {kept elided : Nat}
    (land : alignment.Land kept elided) :
    alignment.Meet kept elided := by
  cases alignment with
  | same => exact land
  | written items => exact Landing.meets land

/-- The codes meet at their starts. -/
theorem meet_zero (alignment : Alignment) : alignment.Meet 0 0 := by
  cases alignment with
  | same => rfl
  | written items => exact Meets.here items 0 0

/-- Two pairs of offsets at which handlers land agree in both codes or in
none. -/
theorem Land.eq_iff {alignment : Alignment}
    {kept elided other another : Nat}
    (land : alignment.Land kept elided)
    (again : alignment.Land other another) :
    kept = other ↔ elided = another := by
  cases alignment with
  | same =>
      cases land
      cases again
      exact Iff.rfl
  | written items =>
      obtain ⟨before, item, after, split, shared, rfl, rfl⟩ := land
      obtain ⟨early, next, late, splitAgain, nextShared, rfl, rfl⟩ := again
      have positive {item : Item} (shared : item.isShared)
          (nils : StatementNils) :
          0 < extent nils [item] := by
        cases item with
        | shared opcode first second line =>
            cases nils <;> simp [extent, Item.emissions, Emission.size]
        | dropped pushLine popLine => cases shared
      rcases List.append_eq_append_iff.1 (split.symm.trans splitAgain) with
        ⟨middle, rfl, rest⟩ | ⟨middle, rfl, rest⟩
      · cases middle with
        | nil =>
            cases rest
            simp
        | cons first others =>
            cases rest
            have keptMore := positive nextShared .kept
            have elidedMore := positive nextShared .elided
            simp only [extent_append, extent_cons _ item others]
            omega
      · cases middle with
        | nil =>
            cases rest
            simp
        | cons first others =>
            cases rest
            have keptMore := positive shared .kept
            have elidedMore := positive shared .elided
            simp only [extent_append, extent_cons _ next others]
            omega

end Alignment

/-- The codes of two functions are the two ways to write closed items. -/
structure Template.Written (items : List Item) (first second : Template) :
    Prop where
  heapSlots : second.heapSlots = first.heapSlots
  kept : first.code.toList =
    assemble first.heapSlots (EffectScript.written .kept items)
  elided : second.code.toList =
    assemble second.heapSlots (EffectScript.written .elided items)
  keptComplete : ∀ emission ∈ EffectScript.written .kept items,
    emission.Complete
  elidedComplete : ∀ emission ∈ EffectScript.written .elided items,
    emission.Complete
  keptLines : first.debug.lines.toList = lineTable .kept items
  elidedLines : second.debug.lines.toList = lineTable .elided items
  closed : Closed items

/-- Two instructions do the same and lead to places where the codes meet. -/
structure Instruction.Pairs
    (alignment : Alignment)
    (first second : Instruction) : Prop where
  opcode : second.opcode = first.opcode
  byte : first.opcode ≠ .jump → first.opcode ≠ .jumpIfFalse →
    first.opcode ≠ .loop →
    second.byte = first.byte
  next : alignment.Meet first.next second.next
  jump : first.opcode = .jump ∨ first.opcode = .jumpIfFalse →
    alignment.Meet (first.next + first.short) (second.next + second.short)
  loop : first.opcode = .loop → first.short ≤ first.next →
    second.short ≤ second.next ∧
      alignment.Meet (first.next - first.short) (second.next - second.short)
  handler : first.opcode = .setHandler →
    alignment.Land (first.next + first.trailingShort)
      (second.next + second.trailingShort)

theorem Instruction.Pairs.refl (instruction : Instruction) :
    instruction.Pairs .same instruction where
  opcode := rfl
  byte := fun _ _ _ => rfl
  next := rfl
  jump := fun _ => rfl
  loop := fun _ inside => ⟨inside, rfl⟩
  handler := fun _ => rfl

namespace Template.Written

variable {items before after : List Item} {first second : Template}
    {line : UInt32}

/-- An item that is dropped is a push and a pop in the code that keeps it. -/
theorem decode_dropped {pushLine popLine : UInt32}
    (written : Written (before ++ .dropped pushLine popLine :: after)
      first second) :
    Instruction.decode first.code (extent .kept before) =
        .ok ⟨extent .kept before, .pushNil, []⟩ ∧
      Instruction.decode first.code (extent .kept before + 1) =
        .ok ⟨extent .kept before + 1, .pop, []⟩ := by
  have code := written.kept
  rw [written_append, written_cons] at code
  refine ⟨decode_assemble code rfl, ?_⟩
  have moved : first.code.toList = assemble first.heapSlots
      ((EffectScript.written .kept before ++ [⟨.pushNil, []⟩]) ++ ⟨.pop, []⟩ ::
        EffectScript.written .kept after) := by
    rw [code]
    simp [Item.emissions]
  have decoded := decode_assemble moved rfl
  rw [totalSize_append] at decoded
  exact decoded

variable {opcode : Opcode} {kept elided : List UInt8}

/-- A shared item is an instruction in both codes. -/
theorem decode_shared
    (written : Written (before ++ .shared opcode kept elided line :: after)
      first second) :
    Instruction.decode first.code (extent .kept before) =
        .ok
          ((⟨opcode, kept⟩ : Emission).placedAt first.heapSlots
            (extent .kept before)) ∧
      Instruction.decode second.code (extent .elided before) =
        .ok
          ((⟨opcode, elided⟩ : Emission).placedAt second.heapSlots
            (extent .elided before)) := by
  have keptCode := written.kept
  have elidedCode := written.elided
  rw [written_append, written_cons] at keptCode elidedCode
  exact ⟨decode_assemble keptCode
    (written.keptComplete _ (by simp [Item.emissions])),
    decode_assemble elidedCode
      (written.elidedComplete _ (by simp [Item.emissions]))⟩

/-- The last byte of a shared item has the same line in both codes. -/
theorem lineAt_shared
    (written : Written (before ++ .shared opcode kept elided line :: after)
      first second) :
    first.debug.lineAt (extent .kept before + kept.length) = line ∧
      second.debug.lineAt (extent .elided before + elided.length) = line := by
  have find {table : Array UInt32} {front back : List UInt32} {count : Nat}
      (parts : table.toList = front ++
        (List.replicate (count + 1) line ++ back)) :
      table[front.length + count]?.getD 0 = line := by
    rw [← Array.getElem?_toList, parts,
      List.getElem?_append_right (Nat.le_add_right _ _),
      Nat.add_sub_cancel_left, List.getElem?_append_left (by simp)]
    simp
  have keptLines := written.keptLines
  have elidedLines := written.elidedLines
  rw [lineTable_append] at keptLines elidedLines
  rw [← length_lineTable, ← length_lineTable]
  exact ⟨find keptLines, find elidedLines⟩

/-- Where both codes have an item, they do the same and meet again. -/
theorem pairs
    (written : Written (before ++ .shared opcode kept elided line :: after)
      first second) :
    Instruction.Pairs
      (.written (before ++ .shared opcode kept elided line :: after))
      ((⟨opcode, kept⟩ : Emission).placedAt first.heapSlots
        (extent .kept before))
      ((⟨opcode, elided⟩ : Emission).placedAt second.heapSlots
        (extent .elided before)) := by
  have leads := (allLead_append.1 (written.closed 0 0)).2.1
  rw [Nat.zero_add, Nat.zero_add] at leads
  have keptNext :
      ((⟨opcode, kept⟩ : Emission).placedAt first.heapSlots
        (extent .kept before)).next =
      extent .kept before + (kept.length + 1) :=
    next_placedAt (written.keptComplete _ (by simp [Item.emissions])) _
  have elidedNext :
      ((⟨opcode, elided⟩ : Emission).placedAt second.heapSlots
          (extent .elided before)).next =
        extent .elided before + (elided.length + 1) :=
    next_placedAt (written.elidedComplete _ (by simp [Item.emissions])) _
  have next : Alignment.Meet
      (.written (before ++ .shared opcode kept elided line :: after))
      (extent .kept before + (kept.length + 1))
        (extent .elided before + (elided.length + 1)) :=
    ⟨before ++ [.shared opcode kept elided line], after, by simp,
      by simp [extent, Item.emissions, Emission.size],
      by simp [extent, Item.emissions, Emission.size]⟩
  rw [← keptNext, ← elidedNext] at next
  -- Jumps and registrations lead to places because the items are closed; all
  -- other operations have the same operands in both codes.
  have jumps (jumping : opcode = .jump ∨ opcode = .jumpIfFalse) :
      ∃ far near, far ≤ 65535 ∧ near ≤ 65535 ∧
        kept = Instruction.shortBytes far ∧
        elided = Instruction.shortBytes near ∧
        Meets (before ++ .shared opcode kept elided line :: after) 0 0
          (extent .kept before + 3 + far)
            (extent .elided before + 3 + near) := by
    rcases jumping with rfl | rfl <;> exact leads
  have alike (onward : opcode ≠ .jump ∧ opcode ≠ .jumpIfFalse ∧ opcode ≠ .loop ∧
      opcode ≠ .setHandler) : kept = elided := by
    obtain ⟨noJump, noChoice, noLoop, noHandler⟩ := onward
    cases opcode with
    | jump => exact (noJump rfl).elim
    | jumpIfFalse => exact (noChoice rfl).elim
    | loop => exact (noLoop rfl).elim
    | setHandler => exact (noHandler rfl).elim
    | _ => exact leads
  have operation {target : Opcode}
      (unboxed : target ≠ .loadHeap ∧ target ≠ .storeHeap)
      (same : (⟨opcode, kept⟩ : Emission).written first.heapSlots = target) :
        opcode = target :=
    Emission.opcode_of_written unboxed same
  refine ⟨?_, ?_, next, ?_, ?_, ?_⟩
  · by_cases onward : opcode ≠ .jump ∧ opcode ≠ .jumpIfFalse ∧ opcode ≠ .loop ∧
      opcode ≠ .setHandler
    · rw [alike onward, written.heapSlots]
      rfl
    · have noAccess : opcode.promoted? = none := by
        cases opcode <;> simp_all [Opcode.promoted?]
      have keptPlain := Emission.written_of_promoted?_eq_none (show
        (⟨opcode, kept⟩ : Emission).opcode.promoted? = none from noAccess)
          first.heapSlots
      have elidedPlain := Emission.written_of_promoted?_eq_none (show
        (⟨opcode, elided⟩ : Emission).opcode.promoted? = none from noAccess)
          second.heapSlots
      exact elidedPlain.trans keptPlain.symm
  · intro noJump noChoice noLoop
    by_cases handling : opcode = .setHandler
    · subst handling
      obtain ⟨effect, far, near, _, _, rfl, rfl, _⟩ := leads
      rfl
    · have other {target : Opcode} (unboxed : target.promoted? = none)
          (different : (⟨opcode, kept⟩ : Emission).written
            first.heapSlots ≠ target) :
          opcode ≠ target := by
        rintro rfl
        exact different (Emission.written_of_promoted?_eq_none unboxed _)
      rw [alike ⟨other rfl noJump, other rfl noChoice,
        other rfl noLoop, handling⟩]
      rfl
  · intro jumping
    have jumps := jumps
      (jumping.imp (operation (by decide)) (operation (by decide)))
    obtain ⟨far, near, farFits, nearFits, rfl, rfl, goal⟩ := jumps
    rw [keptNext, elidedNext, short_placedAt _ _ _ farFits,
      short_placedAt _ _ _ nearFits]
    exact goal
  · intro looping inside
    cases operation (by decide) looping
    obtain ⟨far, near, back, origin, farFits, nearFits, rfl, rfl, goal, backEq,
      originEq⟩ := leads
    have size (distance : Nat) :
        (Instruction.shortBytes distance).length = 2 := rfl
    have keptBack : extent .kept before + (2 + 1) - far = back := by omega
    have elidedBack : extent .elided before + (2 + 1) - near =
        origin := by omega
    rw [keptNext, elidedNext, short_placedAt _ _ _ farFits,
      short_placedAt _ _ _ nearFits, size, size, keptBack, elidedBack]
    exact ⟨by omega, goal⟩
  · intro handling
    cases operation (by decide) handling
    obtain ⟨effect, far, near, farFits, nearFits, rfl, rfl, goal⟩ := leads
    rw [keptNext, elidedNext, trailingShort_placedAt _ _ _ _ farFits,
      trailingShort_placedAt _ _ _ _ nearFits]
    exact goal

end Template.Written

/-- The codes of two functions stand side by side. -/
def Template.Aligned : Alignment → Template → Template → Prop
  | .same, first, second => second = first
  | .written items, first, second => Template.Written items first second

/-- Where the codes meet, a result is pushed and popped in the one that keeps
it. -/
structure Template.Drops
    (alignment : Alignment) (first : Template) (kept elided : Nat) : Prop where
  push : Instruction.decode first.code kept = .ok ⟨kept, .pushNil, []⟩
  pop : Instruction.decode first.code (kept + 1) = .ok ⟨kept + 1, .pop, []⟩
  meet : alignment.Meet (kept + 2) elided

/-- Where the codes meet, the other one has an instruction that does the same,
on the same line. -/
structure Template.Shares
    (alignment : Alignment) (first second : Template) (elided : Nat)
    (instruction partner : Instruction) : Prop where
  decode : Instruction.decode second.code elided = .ok partner
  pairs : instruction.Pairs alignment partner
  line : second.debug.lineAt (partner.next - 1) =
    first.debug.lineAt (instruction.next - 1)

/-- From a place where the codes meet, both go on or one of them drops a
result. -/
theorem Template.Aligned.follow {alignment : Alignment}
    {first second : Template} {kept elided : Nat} {instruction : Instruction}
    (aligned : Template.Aligned alignment first second)
    (meet : alignment.Meet kept elided)
    (decoded : Instruction.decode first.code kept = .ok instruction) :
    Template.Drops alignment first kept elided ∨
      ∃ partner, Template.Shares alignment first second elided instruction
        partner := by
  cases alignment with
  | same =>
      cases aligned
      cases meet
      exact .inr ⟨instruction, decoded, .refl instruction, rfl⟩
  | written items =>
      obtain ⟨before, after, rfl, rfl, rfl⟩ := meet
      rw [Nat.zero_add] at decoded ⊢
      rw [Nat.zero_add]
      cases after with
      | nil =>
          have code := Template.Written.kept aligned
          rw [List.append_nil] at code
          have size : first.code.size = extent .kept before := by
            rw [← Array.length_toList, code, length_assemble, extent]
          simp [Instruction.decode, ← size] at decoded
      | cons item after =>
          cases item with
          | dropped pushLine popLine =>
              obtain ⟨push, pop⟩ := Template.Written.decode_dropped aligned
              refine .inl ⟨push, pop, before ++ [.dropped pushLine popLine],
                after, by simp, ?_, ?_⟩
              · simp [extent, Item.emissions, Emission.size]
              · simp [extent, Item.emissions]
          | shared opcode keptOperands elidedOperands line =>
              obtain ⟨here, there⟩ := Template.Written.decode_shared aligned
              cases here.symm.trans decoded
              refine .inr ⟨_, there, Template.Written.pairs aligned, ?_⟩
              obtain ⟨keptLine, elidedLine⟩ :=
                Template.Written.lineAt_shared aligned
              rw [next_placedAt
                  (Template.Written.elidedComplete aligned
                    _ (by simp [Item.emissions])),
                next_placedAt
                  (Template.Written.keptComplete aligned
                    _ (by simp [Item.emissions]))]
              exact elidedLine.trans keptLine.symm

end EffectScript
