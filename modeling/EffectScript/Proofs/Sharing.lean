import EffectScript.Chain

/-!
# Lists share their nodes

Operations on lists make new lists of earlier ones. A *shelf* keeps every list
that was made, under the number of its turn, and a supply of identities; beside
it stand builders, which collect values for a list that is made later.

What the lists of a shelf hold is what the same operations give on plain
sequences, and a list on the shelf never changes. The identities say exactly
which nodes are shared: lists that start at the same node are the same list, the
result of an operation goes on with the very list that it was made in front of,
and the nodes in front of that list are new.
-/

namespace EffectScript

variable {α : Type}

/-! ## Identities in chains -/

namespace Chain

/-- The identity of the first node. -/
def start? (chain : Chain α) : Option Nat :=
  (List.head? chain).map (·.identity)

/-- The list that is left after the given count of first nodes. -/
def tails? : Nat → Chain α → Option (Chain α)
  | 0, chain => some chain
  | count + 1, chain => (tail? chain).bind (tails? count)

/-- All identities in the chain were taken from the supply before it reached the
given number. -/
def Below (unused : Nat) (chain : Chain α) : Prop :=
  ∀ node ∈ chain, node.identity < unused

variable {first second third list chain rest : Chain α} {values : List α}
    {unused : Nat}

/-- Two chains start at the same node if their first nodes have the same
identity or both have none. -/
theorem sameStart_iff :
    sameStart first second = true ↔ start? first = start? second := by
  cases first <;> cases second <;> simp [sameStart, start?]

theorem sameStart_eq_false_iff :
    sameStart first second = false ↔ start? first ≠ start? second := by
  rw [← Bool.not_eq_true, sameStart_iff]

theorem sameStart_self (chain : Chain α) : sameStart chain chain = true :=
  sameStart_iff.2 rfl

theorem sameStart_comm (first second : Chain α) :
    sameStart first second = sameStart second first := by
  rw [Bool.eq_iff_iff, sameStart_iff, sameStart_iff, eq_comm]

theorem start?_eq_none : start? chain = none ↔ chain = [] := by
  simp [start?]

theorem tails?_eq_drop {count : Nat} (enough : count ≤ chain.length) :
    tails? count chain = some (chain.drop count) := by
  induction count generalizing chain with
  | zero => rfl
  | succ count inner =>
      cases chain with
      | nil => cases enough
      | cons node rest => exact inner (Nat.le_of_succ_le_succ enough)

theorem Below.mono {more : Nat}
    (below : chain.Below unused)
    (grows : unused ≤ more) :
    chain.Below more :=
  fun node member => Nat.lt_of_lt_of_le (below node member) grows

theorem Below.suffix (below : chain.Below unused) (ends : list <:+ chain) :
    list.Below unused :=
  fun node member => below node (ends.subset member)

/-- A chain of old nodes does not start at a new one. -/
theorem Below.start?_ne
    (below : chain.Below unused)
    {identity : Nat}
    (new : unused ≤ identity) :
    start? chain ≠ some identity := by
  intro starts
  obtain ⟨node, first, rfl⟩ := Option.map_eq_some_iff.1 starts
  exact absurd (below node (List.mem_of_mem_head? first)) (Nat.not_lt.2 new)

/-! ### New nodes -/

theorem prepend_nil (unused : Nat) (chain : Chain α) :
    prepend unused [] chain = chain := rfl

theorem prepend_cons
    (unused : Nat) (value : α) (values : List α) (chain : Chain α) :
    prepend unused (value :: values) chain =
      ⟨unused, value⟩ :: prepend (unused + 1) values chain := by
  simp only [prepend, List.mapIdx_cons, List.cons_append, Nat.add_zero,
    Nat.add_right_comm, Nat.add_assoc]

theorem length_prepend (unused : Nat) (values : List α) (chain : Chain α) :
    (prepend unused values chain).length = values.length + chain.length := by
  simp [prepend]

theorem drop_prepend {count : Nat} (enough : count ≤ values.length) :
    (prepend unused values chain).drop count =
      prepend (unused + count) (values.drop count) chain := by
  induction count generalizing unused values with
  | zero => rfl
  | succ count inner =>
      cases values with
      | nil => cases enough
      | cons value values =>
          rw [prepend_cons, List.drop_succ_cons, List.drop_succ_cons,
            inner (Nat.le_of_succ_le_succ enough), Nat.add_right_comm,
            Nat.add_assoc]

/-- Taking as many tails as there are new nodes leaves the chain behind them. -/
theorem tails?_prepend (unused : Nat) (values : List α) (chain : Chain α) :
    tails? values.length (prepend unused values chain) = some chain := by
  rw [tails?_eq_drop (by simp [length_prepend]), drop_prepend (Nat.le_refl _),
    List.drop_length, prepend_nil]

/-- Taking fewer tails leaves a chain that starts at a new node. -/
theorem start?_prepend {index : Nat} (inside : index < values.length) :
    start? (prepend (unused + index) (values.drop index) chain) =
      some (unused + index) := by
  rw [List.drop_eq_getElem_cons inside, prepend_cons]
  rfl

/-- What is left of new nodes in front of a chain is what is left of the new
nodes, in front of the chain, or of the chain. -/
theorem suffix_prepend : list <:+ prepend unused values chain →
    (∃ index < values.length, list = prepend (unused + index)
        (values.drop index) chain) ∨
      list <:+ chain := by
  induction values generalizing unused with
  | nil => exact .inr
  | cons value values inner =>
      rw [prepend_cons, List.suffix_cons_iff]
      rintro (whole | ends)
      · exact .inl ⟨0, Nat.succ_pos _, whole.trans (prepend_cons ..).symm⟩
      · rcases inner ends with ⟨index, inside, front⟩ | back
        · refine .inl ⟨index + 1, Nat.succ_lt_succ inside, ?_⟩
          rw [front, List.drop_succ_cons, Nat.add_right_comm, Nat.add_assoc]
        · exact .inr back

theorem Below.prepend (below : chain.Below unused) (values : List α) :
    (Chain.prepend unused values chain).Below (unused + values.length) := by
  intro node member
  rcases List.mem_append.1 member with front | back
  · obtain ⟨index, inside, rfl⟩ := List.mem_mapIdx.1 front
    exact Nat.add_lt_add_left inside unused
  · exact Nat.lt_of_lt_of_le (below node back) (Nat.le_add_right _ _)

/-! ### Nodes of several chains -/

/-- Identities of nodes come from the supply, and nodes with one identity have
one list behind them. -/
structure Identified (known : Chain α → Prop) (unused : Nat) : Prop where
  below {list : Chain α} : known list → list.Below unused
  unique {first second : Chain α} : known first → known second →
    start? first = start? second →
    first = second

/-- The list is known, or it starts at one of the new nodes that hold the
values. -/
def WithNew
    (known : Chain α → Prop) (unused : Nat) (values : List α)
    (shared list : Chain α) : Prop :=
  known list ∨ ∃ index < values.length, list = prepend (unused + index)
    (values.drop index) shared

variable {known : Chain α → Prop} {shared : Chain α}

theorem below_nil (unused : Nat) : Below unused ([] : Chain α) :=
  fun _ impossible => absurd impossible List.not_mem_nil

/-- The list without nodes can be among the known ones. -/
theorem Identified.withEmpty (identified : Identified known unused) :
    Identified (fun list => list = [] ∨ known list) unused where
  below := by
    rintro list (rfl | old)
    · exact below_nil unused
    · exact identified.below old
  unique := by
    rintro first second (rfl | firstOld) (rfl | secondOld) same
    · rfl
    · exact (start?_eq_none.1 same.symm).symm
    · exact start?_eq_none.1 same
    · exact identified.unique firstOld secondOld same

/-- New nodes in front of a known list have identities of their own. -/
theorem Identified.withNew
    (identified : Identified known unused)
    (sharedKnown : known shared)
    (values : List α) :
    Identified (WithNew known unused values shared)
      (unused + values.length) where
  below := by
    rintro list (old | ⟨index, inside, rfl⟩)
    · exact (identified.below old).mono (Nat.le_add_right _ _)
    · rw [← drop_prepend (Nat.le_of_lt inside)]
      exact ((identified.below sharedKnown).prepend values).suffix
        (List.drop_suffix _ _)
  unique := by
    rintro first second (firstOld | ⟨index, inside, rfl⟩)
      (secondOld | ⟨other, otherInside, rfl⟩) same
    · exact identified.unique firstOld secondOld same
    · rw [start?_prepend otherInside] at same
      exact absurd same
        ((identified.below firstOld).start?_ne (Nat.le_add_right _ _))
    · rw [start?_prepend inside] at same
      exact absurd same.symm
        ((identified.below secondOld).start?_ne (Nat.le_add_right _ _))
    · rw [start?_prepend inside, start?_prepend otherInside] at same
      rw [Nat.add_left_cancel (Option.some.inj same)]

theorem Identified.imp {fewer : Chain α → Prop}
    (identified : Identified known unused)
    (implies : ∀ list, fewer list → known list) :
    Identified fewer unused :=
  ⟨fun old => identified.below (implies _ old),
    fun firstOld secondOld => identified.unique (implies _ firstOld)
      (implies _ secondOld)⟩

end Chain

/-! ## Shelves -/

/-- An operation on lists and builders, which are known by their numbers. -/
inductive ListOperation (α : Type) where
  | empty
  | ofValues (values : List α)
  | cons (value : α) (list : Nat)
  | append (first second : Nat)
  /-- Makes nothing of a list without nodes. -/
  | tail (list : Nat)
  /-- Makes a builder without values. -/
  | builder
  | push (builder : Nat) (value : α)
  /-- Makes a list of the values of a builder, in front of another list, and
  empties the builder. -/
  | finish (builder list : Nat)

/-- The lists that were made so far and the values in the builders. -/
structure Shelf (α : Type) where
  unused : Nat := 0
  lists : List (Chain α) := []
  builders : List (List α) := []

namespace Shelf

/-- The list with the given number. -/
def list (shelf : Shelf α) (number : Nat) : Chain α :=
  shelf.lists[number]?.getD []

/-- The values in the builder with the given number. -/
def pending (shelf : Shelf α) (builder : Nat) : List α :=
  shelf.builders[builder]?.getD []

/-- The shelf with one more list, which has the given count of new nodes. -/
def add (shelf : Shelf α) (made : Chain α) (nodes : Nat) : Shelf α :=
  { shelf with unused := shelf.unused + nodes, lists := shelf.lists ++ [made] }

/-- The shelf after an operation. -/
def perform (shelf : Shelf α) : ListOperation α → Shelf α
  | .empty => shelf.add [] 0
  | .ofValues values =>
      shelf.add (Chain.ofValues shelf.unused values) values.length
  | .cons value list =>
      shelf.add (Chain.cons shelf.unused value (shelf.list list)) 1
  | .append first second =>
      shelf.add
        (Chain.append shelf.unused (shelf.list first) (shelf.list second))
        (shelf.list first).length
  | .tail list =>
      match Chain.tail? (shelf.list list) with
      | some rest => shelf.add rest 0
      | none => shelf
  | .builder => { shelf with builders := shelf.builders ++ [[]] }
  | .push builder value =>
      { shelf with builders := shelf.builders.modify builder (· ++ [value]) }
  | .finish builder list =>
      { shelf.add (Chain.prepend shelf.unused (shelf.pending builder)
        (shelf.list list))
          (shelf.pending builder).length with
        builders := shelf.builders.set builder [] }

/-- The shelf after operations on an empty one. -/
def after (operations : List (ListOperation α)) : Shelf α :=
  operations.foldl perform {}

/-- The list is on the shelf, or it is left of one that is. -/
def Occurs (shelf : Shelf α) (list : Chain α) : Prop :=
  ∃ whole ∈ shelf.lists, list <:+ whole

end Shelf

/-- What lists and builders hold, without regard to nodes. -/
structure Contents (α : Type) where
  lists : List (List α) := []
  builders : List (List α) := []

namespace Contents

/-- The sequence with the given number. -/
def list (contents : Contents α) (number : Nat) : List α :=
  contents.lists[number]?.getD []

/-- The values in the builder with the given number. -/
def pending (contents : Contents α) (builder : Nat) : List α :=
  contents.builders[builder]?.getD []

/-- The contents with one more sequence. -/
def add (contents : Contents α) (made : List α) : Contents α :=
  { contents with lists := contents.lists ++ [made] }

/-- The contents after an operation on plain sequences. -/
def perform (contents : Contents α) : ListOperation α → Contents α
  | .empty => contents.add []
  | .ofValues values => contents.add values
  | .cons value list => contents.add (value :: contents.list list)
  | .append first second =>
      contents.add (contents.list first ++ contents.list second)
  | .tail list =>
      match contents.list list with
      | [] => contents
      | _ :: rest => contents.add rest
  | .builder => { contents with builders := contents.builders ++ [[]] }
  | .push builder value =>
      { contents with builders :=
        contents.builders.modify builder (· ++ [value]) }
  | .finish builder list =>
      { contents.add (contents.pending builder ++ contents.list list) with
        builders := contents.builders.set builder [] }

/-- The contents after operations on nothing. -/
def after (operations : List (ListOperation α)) : Contents α :=
  operations.foldl perform {}

end Contents

/-- The list that an operation goes on with behind its new nodes, if it makes a
list. -/
def ListOperation.shared? (operation : ListOperation α) (shelf : Shelf α) :
    Option (Chain α) :=
  match operation with
  | .empty | .ofValues _ => some []
  | .cons _ list | .append _ list | .finish _ list => some (shelf.list list)
  | .tail list => Chain.tail? (shelf.list list)
  | .builder | .push _ _ => none

/-- The values for which an operation makes new nodes. -/
def ListOperation.renewed (operation : ListOperation α) (shelf : Shelf α) :
    List α :=
  match operation with
  | .ofValues values => values
  | .cons value _ => [value]
  | .append first _ => (shelf.list first).values
  | .finish number _ => shelf.pending number
  | .empty | .tail _ | .builder | .push _ _ => []

namespace Shelf

variable {shelf : Shelf α} {list first second : Chain α}

/-! ### What lists hold -/

/-- What the lists and builders of a shelf hold. -/
def contents (shelf : Shelf α) : Contents α :=
  ⟨shelf.lists.map Chain.values, shelf.builders⟩

theorem contents_list (shelf : Shelf α) (number : Nat) :
    shelf.contents.list number = (shelf.list number).values := by
  rw [Contents.list, contents, List.getElem?_map, list]
  cases shelf.lists[number]? <;> rfl

theorem contents_add (shelf : Shelf α) (made : Chain α) (nodes : Nat) :
    (shelf.add made nodes).contents = shelf.contents.add made.values := by
  simp only [contents, add, Contents.add, List.map_append, List.map_singleton]

/-- An operation on lists does to what they hold what it does to sequences. -/
theorem contents_perform (shelf : Shelf α) (operation : ListOperation α) :
    (shelf.perform operation).contents = shelf.contents.perform operation := by
  cases operation with
  | empty => exact contents_add shelf [] 0
  | ofValues values =>
      rw [perform, contents_add, Chain.values_ofValues, Contents.perform]
  | cons value list =>
      rw [perform, contents_add, Chain.values_cons, Contents.perform,
        contents_list]
  | append first second =>
      rw [perform, contents_add, Chain.values_append, Contents.perform,
        contents_list, contents_list]
  | tail list =>
      rw [perform, Contents.perform, contents_list]
      cases shelf.list list with
      | nil => rfl
      | cons node rest => exact contents_add shelf rest 0
  | builder => rfl
  | push builder value => rfl
  | finish builder list =>
      have made := contents_add shelf
        (Chain.prepend shelf.unused (shelf.pending builder) (shelf.list list))
        (shelf.pending builder).length
      rw [Chain.values_prepend, ← contents_list] at made
      exact congrArg (fun contents : Contents α =>
        { contents with builders := shelf.builders.set builder [] }) made

theorem contents_after (operations : List (ListOperation α)) :
    (after operations).contents = Contents.after operations :=
  (List.foldl_hom contents fun shelf operation =>
    (contents_perform shelf operation).symm).symm

/-! ### Lists stay -/

/-- An operation that makes a list puts new nodes in front of the list that it
shares. -/
theorem lists_perform_of_some {operation : ListOperation α}
    {shared : Chain α}
    (goesOn : operation.shared? shelf = some shared) :
    (shelf.perform operation).lists =
        shelf.lists ++
          [Chain.prepend shelf.unused (operation.renewed shelf) shared] ∧
      (shelf.perform operation).unused = shelf.unused +
        (operation.renewed shelf).length := by
  cases operation with
  | append first second =>
      cases goesOn
      simp only [perform, add, ListOperation.renewed, Chain.append,
        Chain.values, List.length_map, and_self]
  | tail list =>
      rw [ListOperation.shared?] at goesOn
      simp only [perform, goesOn]
      exact ⟨rfl, rfl⟩
  | builder | push => cases goesOn
  | _ =>
      cases goesOn
      exact ⟨rfl, rfl⟩

/-- The other operations leave the lists alone. -/
theorem lists_perform_of_none {operation : ListOperation α}
    (nothing : operation.shared? shelf = none) :
    (shelf.perform operation).lists = shelf.lists ∧
    (shelf.perform operation).unused = shelf.unused := by
  cases operation with
  | builder | push => exact ⟨rfl, rfl⟩
  | tail list =>
      rw [ListOperation.shared?] at nothing
      simp only [perform, nothing, and_self]
  | _ => cases nothing

theorem prefix_perform (shelf : Shelf α) (operation : ListOperation α) :
    shelf.lists <+: (shelf.perform operation).lists := by
  cases made : operation.shared? shelf with
  | none => simp only [(lists_perform_of_none made).1, List.prefix_rfl]
  | some shared =>
      rw [(lists_perform_of_some made).1]
      exact List.prefix_append _ _

theorem prefix_foldl (shelf : Shelf α) (operations : List (ListOperation α)) :
    shelf.lists <+: (operations.foldl perform shelf).lists := by
  induction operations generalizing shelf with
  | nil => exact List.prefix_rfl
  | cons operation operations inner =>
      exact (prefix_perform shelf operation).trans (inner _)

/-! ### Identities -/

/-- The nodes on the shelf have identities of their own. -/
abbrev Sound (shelf : Shelf α) : Prop :=
  Chain.Identified shelf.Occurs shelf.unused

theorem occurs_list (shelf : Shelf α) (number : Nat) :
    shelf.list number = [] ∨ shelf.Occurs (shelf.list number) := by
  unfold list
  cases present : shelf.lists[number]? with
  | none => exact .inl rfl
  | some whole =>
      exact .inr ⟨whole, List.mem_of_getElem? present, List.suffix_rfl⟩

theorem Occurs.suffix (occurs : shelf.Occurs list) (ends : first <:+ list) :
    shelf.Occurs first := by
  obtain ⟨whole, member, within⟩ := occurs
  exact ⟨whole, member, ends.trans within⟩

/-- What an operation shares is on the shelf already, unless it is empty. -/
theorem occurs_shared {operation : ListOperation α}
    {shared : Chain α}
    (goesOn : operation.shared? shelf = some shared) :
    shared = [] ∨ shelf.Occurs shared := by
  cases operation with
  | empty | ofValues => exact .inl (Option.some.inj goesOn).symm
  | cons _ list | append _ list | finish _ list =>
      cases goesOn
      exact occurs_list shelf list
  | tail list =>
      rcases occurs_list shelf list with nothing | occurs
      · rw [ListOperation.shared?, nothing] at goesOn
        cases goesOn
      · rw [ListOperation.shared?] at goesOn
        cases listEq : shelf.list list with
        | nil =>
            rw [listEq] at goesOn
            cases goesOn
        | cons node rest =>
            rw [listEq] at goesOn occurs
            cases goesOn
            exact .inr (occurs.suffix (List.suffix_cons _ _))
  | builder | push => cases goesOn

/-- What occurs after an operation occurred before, or it is empty, or it starts
at a new node. -/
theorem occurs_perform {operation : ListOperation α}
    {shared : Chain α}
    (goesOn : operation.shared? shelf = some shared)
    (occurs : (shelf.perform operation).Occurs list) :
    Chain.WithNew (fun list => list = [] ∨ shelf.Occurs list) shelf.unused
      (operation.renewed shelf) shared list := by
  obtain ⟨whole, member, ends⟩ := occurs
  rw [(lists_perform_of_some goesOn).1] at member
  rcases List.mem_append.1 member with old | new
  · exact .inl (.inr ⟨whole, old, ends⟩)
  · rw [List.mem_singleton.1 new] at ends
    rcases Chain.suffix_prepend ends with front | back
    · exact .inr front
    · rcases occurs_shared goesOn with rfl | known
      · exact .inl (.inl (List.suffix_nil.1 back))
      · exact .inl (.inr (known.suffix back))

/-- Every operation keeps a shelf sound. -/
theorem Sound.perform (sound : shelf.Sound) (operation : ListOperation α) :
    (shelf.perform operation).Sound := by
  cases made : operation.shared? shelf with
  | none =>
      obtain ⟨lists, unused⟩ := lists_perform_of_none made
      rw [Sound, unused]
      exact sound.imp fun list ⟨whole, member, ends⟩ =>
        ⟨whole, lists ▸ member, ends⟩
  | some shared =>
      rw [Sound, (lists_perform_of_some made).2]
      exact (sound.withEmpty.withNew (occurs_shared made)
        (operation.renewed shelf)).imp
        fun list => occurs_perform made

/-- Whatever operations were performed, the shelf is sound. -/
theorem sound_after (operations : List (ListOperation α)) :
    (after operations).Sound := by
  have empty : ({} : Shelf α).Sound := by
    constructor
    · rintro list ⟨whole, impossible, _⟩
      cases impossible
    · rintro first second ⟨whole, impossible, _⟩
      cases impossible
  have kept : ∀ (operations : List (ListOperation α)) (shelf : Shelf α),
      shelf.Sound →
      (operations.foldl Shelf.perform shelf).Sound := by
    intro operations
    induction operations with
    | nil => exact fun shelf sound => sound
    | cons operation operations inner =>
        exact fun shelf sound => inner _ (sound.perform operation)
  exact kept operations {} empty

/-! ## Sequences with shared nodes -/

/-- Whatever operations were performed before: the lists hold what the
operations give on plain sequences, and they stay as they are. What is read off
a list is read off the sequence that it holds. Lists that start at the same node
are the same list. An operation that makes a list leaves, behind as many tails
as it has new nodes, a list that starts where the list starts that it goes on
with; the lists in front of that start where no earlier list does. -/
theorem lists_are_sequences_with_exact_sharing
    (operations : List (ListOperation α)) :
    ((after operations).contents = Contents.after operations ∧
      ∀ more, (after operations).lists <+: (after (operations ++ more)).lists) ∧
    (∀ list : Chain α, Chain.head? list = list.values.head? ∧
      (∀ index, Chain.nth? list index = list.values[index]?) ∧
      list.length = list.values.length ∧ list.isEmpty = list.values.isEmpty) ∧
    (∀ first second, (after operations).Occurs first →
      (after operations).Occurs second →
      (Chain.sameStart first second = true ↔ first = second)) ∧
    (∀ list, (after operations).Occurs list →
      list.Below (after operations).unused) ∧
    ∀ operation shared, operation.shared? (after operations) = some shared →
      ∃ made, ((after operations).perform operation).lists =
          (after operations).lists ++ [made] ∧
        (∃ rest, Chain.tails? (operation.renewed (after operations)).length
            made = some rest ∧
          Chain.sameStart rest shared = true) ∧
        ∀ count < (operation.renewed (after operations)).length,
          ∃ list, Chain.tails? count made = some list ∧
            ∀ old, old.Below (after operations).unused →
              Chain.sameStart list old = false := by
  have sound := sound_after operations
  refine ⟨⟨contents_after operations, fun more => ?_⟩, fun list =>
    ⟨?_, fun index => ?_, ?_, ?_⟩,
    fun first second firstOccurs secondOccurs => ⟨fun same => ?_, ?_⟩,
      fun list => sound.below,
    fun operation shared goesOn =>
      ⟨_, (lists_perform_of_some goesOn).1, ?_, fun count inside => ?_⟩⟩
  · rw [after, after, List.foldl_append]
    exact prefix_foldl _ more
  · rw [Chain.head?, Chain.values, List.head?_map]
  · rw [Chain.nth?, Chain.values, List.getElem?_map]
  · rw [Chain.values, List.length_map]
  · rw [Chain.values, List.isEmpty_map]
  · exact sound.unique firstOccurs secondOccurs (Chain.sameStart_iff.1 same)
  · rintro rfl
    exact Chain.sameStart_self first
  · exact ⟨shared, Chain.tails?_prepend _ _ _, Chain.sameStart_self shared⟩
  · refine ⟨_, Chain.tails?_eq_drop ?_, fun old below =>
      Chain.sameStart_eq_false_iff.2 ?_⟩
    · rw [Chain.length_prepend]
      exact Nat.le_trans (Nat.le_of_lt inside) (Nat.le_add_right _ _)
    · rw [Chain.drop_prepend (Nat.le_of_lt inside), Chain.start?_prepend inside]
      exact (below.start?_ne (Nat.le_add_right _ _)).symm

end Shelf

end EffectScript
