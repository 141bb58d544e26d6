import EffectScript.Proofs.Identity

/-!
# Memories

A *memory* holds values that exist together, with all their parts: lists that
start at the same node are one list, and maps with the same number are one map.
In a memory, equality says what a look at all elements would say, although it
may stop early.

New lists and maps have identities that nothing else has, so a memory that holds
what they are made of grows to one that holds them as well.
-/

namespace EffectScript

/-- Values that exist together, with all their parts. An identity is that of one
list or map. -/
structure Memory where
  holds : Value → Prop
  simple {value : Value} : value.hasParts = false → holds value
  empty : holds (.list [])
  first {node : Node Value} {rest : List (Node Value)} :
    holds (.list (node :: rest)) → holds node.value
  rest {node : Node Value} {rest : List (Node Value)} :
    holds (.list (node :: rest)) → holds (.list rest)
  entries {identity : Nat} {entries : List (String × Value)} :
      holds (.map identity entries) →
    ∀ entry ∈ entries, holds entry.2
  oneList {left right : List (Node Value)} : holds (.list left) →
    holds (.list right) →
    Chain.sameStart left right = true → left = right
  oneMap {identity : Nat} {left right : List (String × Value)} :
      holds (.map identity left) →
    holds (.map identity right) → left = right

namespace Memory

variable (memory : Memory) {left right first second third : Value}

theorem nodes {nodes : List (Node Value)} (held : memory.holds (.list nodes)) :
    ∀ node ∈ nodes, memory.holds node.value := by
  induction nodes with
  | nil => exact List.forall_mem_nil _
  | cons node nodes inner =>
      exact List.forall_mem_cons.2 ⟨memory.first held, inner (memory.rest held)⟩

/-- In a memory, equality is what a look at all elements says, though it may
stop early. -/
theorem eq_iff_alike
    (leftHeld : memory.holds left)
    (rightHeld : memory.holds right) :
    left.eq right = true ↔ left.Alike right := by
  refine @Value.Inductive.holds (fun left => ∀ right, memory.holds left →
      memory.holds right → (left.eq right = true ↔ left.Alike right))
    ⟨fun nodes each right leftHeld rightHeld => ?_,
      fun identity entries each right leftHeld rightHeld => ?_,
        fun left simple right _ _ => ?_⟩
    left right leftHeld rightHeld
  · cases right with
    | list others =>
        have walked : nodesEq nodes others = true ↔
            (Value.list nodes).Alike (.list others) := by
          have elements (pair) (member : pair ∈ nodes.zip others) :=
            each pair.1 (List.of_mem_zip member).1 pair.2.value
              (memory.nodes leftHeld _ (List.of_mem_zip member).1)
              (memory.nodes rightHeld _ (List.of_mem_zip member).2)
          rw [nodesEq_iff]
          constructor
          · rintro ⟨lengths, equal⟩
            exact .list lengths fun pair member =>
              (elements pair member).1 (equal pair member)
          · rintro (⟨lengths, alike⟩ | _ | ⟨simple, _⟩)
            · exact ⟨lengths, fun pair member => (elements pair member).2
                (alike pair member)⟩
            · cases simple
        rw [Value.eq_list, Bool.or_eq_true, walked, or_iff_right_iff_imp]
        intro same
        rw [memory.oneList leftHeld rightHeld same]
        exact .refl _
    | _ =>
        refine iff_of_false (by rintro ⟨⟩) ?_
        rintro (_ | _ | ⟨simple, _⟩)
        cases simple
  · cases right with
    | map other others =>
        have walked : entriesEq entries others = true ↔
            (Value.map identity entries).Alike (.map other others) := by
          have values (pair) (member : pair ∈ entries.zip others) :=
            each pair.1 (List.of_mem_zip member).1 pair.2.2
              (memory.entries leftHeld _ (List.of_mem_zip member).1)
              (memory.entries rightHeld _ (List.of_mem_zip member).2)
          rw [entriesEq_iff]
          constructor
          · rintro ⟨keys, equal⟩
            exact .map keys fun pair member =>
              (values pair member).1 (equal pair member)
          · rintro (_ | ⟨keys, alike⟩ | ⟨simple, _⟩)
            · exact ⟨keys, fun pair member => (values pair member).2
                (alike pair member)⟩
            · cases simple
        rw [Value.eq_map, Bool.or_eq_true, walked,
          or_iff_right_iff_imp, beq_iff_eq]
        rintro rfl
        rw [memory.oneMap leftHeld rightHeld]
        exact .refl _
    | _ =>
        refine iff_of_false (by rintro ⟨⟩) ?_
        rintro (_ | _ | ⟨simple, _⟩)
        cases simple
  · rw [Value.eq_of_simple simple, Value.same_iff]
    constructor
    · exact .simple simple
    · rintro (_ | _ | ⟨_, same⟩)
      · cases simple
      · cases simple
      · exact same

/-- In a memory, equality is transitive. -/
theorem eq_trans
    (firstHeld : memory.holds first)
    (secondHeld : memory.holds second)
    (thirdHeld : memory.holds third)
    (before : first.eq second = true)
    (after : second.eq third = true) :
    first.eq third = true :=
  (memory.eq_iff_alike firstHeld thirdHeld).2
    (((memory.eq_iff_alike firstHeld secondHeld).1 before).trans
      ((memory.eq_iff_alike secondHeld thirdHeld).1 after))

/-! ## Growth -/

/-- The identities of lists and maps were taken from the supply before it
reached the given number. -/
structure Below (unused : Nat) : Prop where
  list {nodes : List (Node Value)} : memory.holds (.list nodes) →
    Chain.Below unused nodes
  map {identity : Nat} {entries : List (String × Value)} :
      memory.holds (.map identity entries) →
    identity < unused

variable {memory} {unused : Nat} {values : List Value}
    {shared : List (Node Value)} {entries : List (String × Value)}

theorem Below.mono
    (below : memory.Below unused)
    {more : Nat}
    (grows : unused ≤ more) :
    memory.Below more :=
  ⟨fun held => (below.list held).mono grows, fun held =>
    Nat.lt_of_lt_of_le (below.map held) grows⟩

/-- The nodes of lists have identities of their own. -/
theorem Below.identified (below : memory.Below unused) :
    Chain.Identified (fun nodes => memory.holds (.list nodes)) unused :=
  ⟨below.list, fun firstHeld secondHeld same =>
    memory.oneList firstHeld secondHeld (Chain.sameStart_iff.2 same)⟩

/-- New nodes for held values in front of a held list. -/
def withList
    (below : memory.Below unused)
    (sharedHeld : memory.holds (.list shared))
    (valuesHeld : ∀ value ∈ values, memory.holds value) : Memory where
  holds value := memory.holds value ∨ ∃ index < values.length,
    value = .list (Chain.prepend (unused + index) (values.drop index) shared)
  simple simple := .inl (memory.simple simple)
  empty := .inl memory.empty
  first := by
    rintro node rest (old | ⟨index, inside, new⟩)
    · exact .inl (memory.first old)
    · rw [List.drop_eq_getElem_cons inside, Chain.prepend_cons] at new
      cases new
      exact .inl (valuesHeld _ (List.getElem_mem inside))
  rest := by
    rintro node rest (old | ⟨index, inside, new⟩)
    · exact .inl (memory.rest old)
    · rw [List.drop_eq_getElem_cons inside, Chain.prepend_cons] at new
      cases new
      by_cases more : index + 1 < values.length
      · exact .inr ⟨index + 1, more, by rw [Nat.add_assoc]⟩
      · rw [List.drop_eq_nil_of_le (Nat.le_of_not_lt more)]
        exact .inl sharedHeld
  entries := by
    rintro identity entries (old | ⟨_, _, new⟩)
    · exact fun entry member => .inl (memory.entries old entry member)
    · cases new
  oneList := by
    have identified := below.identified.withNew sharedHeld values
    have known {nodes : List (Node Value)} (held : memory.holds (.list nodes) ∨
        ∃ index < values.length,
          Value.list nodes =
            .list (Chain.prepend (unused + index) (values.drop index) shared)) :
        Chain.WithNew (fun nodes => memory.holds (.list nodes)) unused values
          shared nodes :=
      held.imp_right fun ⟨index, inside, new⟩ =>
        ⟨index, inside, Value.list.inj new⟩
    intro left right leftHeld rightHeld same
    exact identified.unique (known leftHeld) (known rightHeld)
      (Chain.sameStart_iff.1 same)
  oneMap := by
    rintro identity left right (leftOld | ⟨_, _, new⟩) (rightOld | ⟨_, _, new⟩)
    · exact memory.oneMap leftOld rightOld
    all_goals cases new

/-- A memory grows by a new list of held values. -/
theorem exists_list
    (below : memory.Below unused)
    (sharedHeld : memory.holds (.list shared))
    (valuesHeld : ∀ value ∈ values, memory.holds value) :
    ∃ more : Memory, more.Below (unused + values.length) ∧
      (∀ value, memory.holds value → more.holds value) ∧
      more.holds (.list (Chain.prepend unused values shared)) := by
  refine ⟨withList below sharedHeld valuesHeld, ⟨?_, ?_⟩, fun value => .inl, ?_⟩
  · rintro nodes (old | ⟨index, inside, new⟩)
    · exact (below.list old).mono (Nat.le_add_right _ _)
    · exact (below.identified.withNew sharedHeld values).below
        (.inr ⟨index, inside, Value.list.inj new⟩)
  · rintro identity entries (old | ⟨_, _, new⟩)
    · exact Nat.lt_of_lt_of_le (below.map old) (Nat.le_add_right _ _)
    · cases new
  · cases values with
    | nil => exact .inl sharedHeld
    | cons value values => exact .inr ⟨0, Nat.succ_pos _, rfl⟩

/-- A new map with entries that are held. -/
def withMap
    (below : memory.Below unused)
    (entriesHeld : ∀ entry ∈ entries, memory.holds entry.2) : Memory where
  holds value := memory.holds value ∨ value = .map unused entries
  simple simple := .inl (memory.simple simple)
  empty := .inl memory.empty
  first := by
    rintro node rest (old | ⟨⟨⟩⟩)
    exact .inl (memory.first old)
  rest := by
    rintro node rest (old | ⟨⟨⟩⟩)
    exact .inl (memory.rest old)
  entries := by
    rintro identity others (old | ⟨⟨⟩⟩)
    · exact fun entry member => .inl (memory.entries old entry member)
    · exact fun entry member => .inl (entriesHeld entry member)
  oneList := by
    rintro left right (leftOld | ⟨⟨⟩⟩) (rightOld | ⟨⟨⟩⟩)
    exact memory.oneList leftOld rightOld
  oneMap := by
    rintro identity left right (leftOld | ⟨⟨⟩⟩) (rightOld | ⟨⟨⟩⟩)
    · exact memory.oneMap leftOld rightOld
    · exact absurd (below.map leftOld) (Nat.lt_irrefl _)
    · exact absurd (below.map rightOld) (Nat.lt_irrefl _)
    · rfl

/-- A memory grows by a new map with held entries. -/
theorem exists_map
    (below : memory.Below unused)
    (entriesHeld : ∀ entry ∈ entries, memory.holds entry.2) :
    ∃ more : Memory, more.Below (unused + 1) ∧
      (∀ value, memory.holds value → more.holds value) ∧
      more.holds (.map unused entries) := by
  refine ⟨withMap below entriesHeld, ⟨?_, ?_⟩, fun value => .inl, .inr rfl⟩
  · rintro nodes (old | ⟨⟨⟩⟩)
    exact (below.list old).mono (Nat.le_succ _)
  · rintro identity others (old | ⟨⟨⟩⟩)
    · exact Nat.lt_succ_of_lt (below.map old)
    · exact Nat.lt_succ_self _

/-- The memory without lists of nodes and without maps. -/
def initial : Memory where
  holds value := value.hasParts = false ∨ value = .list []
  simple := .inl
  empty := .inr rfl
  first := by rintro _ _ (⟨⟨⟩⟩ | ⟨⟨⟩⟩)
  rest := by rintro _ _ (⟨⟨⟩⟩ | ⟨⟨⟩⟩)
  entries := by rintro _ _ (⟨⟨⟩⟩ | ⟨⟨⟩⟩)
  oneList := by
    rintro left right (⟨⟨⟩⟩ | ⟨⟨⟩⟩) (⟨⟨⟩⟩ | ⟨⟨⟩⟩) _
    rfl
  oneMap := by rintro _ _ _ (⟨⟨⟩⟩ | ⟨⟨⟩⟩)

theorem initial_below (unused : Nat) : initial.Below unused where
  list := by
    rintro nodes (⟨⟨⟩⟩ | ⟨⟨⟩⟩)
    exact Chain.below_nil unused
  map := by rintro identity entries (⟨⟨⟩⟩ | ⟨⟨⟩⟩)

end Memory

end EffectScript
