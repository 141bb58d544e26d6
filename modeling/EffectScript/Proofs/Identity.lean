import EffectScript.Proofs.Sharing
import EffectScript.Value.Equality

/-!
# Identity and equality of values

Two values are the same if they have the same identity, which is the content of
a scalar and the number of any other object. Equality looks into lists and maps,
but it stops early where two lists start at the same node and where two maps are
the same object.

Whether these early stops are right depends on what identities are. Beside
equality this module has the comparison that always looks at all elements.
-/

namespace EffectScript

/-! ## Values and their parts -/

/-- Whether the value is a list or a map. -/
def Value.hasParts : Value → Bool
  | .list _ | .map _ _ => true
  | _ => false

/-- The property holds of lists and maps if it holds of their elements, and it
holds of all other values. -/
structure Value.Inductive (property : Value → Prop) : Prop where
  list (nodes : List (Node Value)) : (∀ node ∈ nodes, property node.value) →
    property (.list nodes)
  map (identity : Nat) (entries : List (String × Value)) :
    (∀ entry ∈ entries, property entry.2) → property (.map identity entries)
  simple (value : Value) : value.hasParts = false → property value

section Induction

variable {property : Value → Prop}

mutual

/-- A property that goes from elements to lists and maps holds of every
value. -/
theorem Value.Inductive.holds (goes : Value.Inductive property) :
    (value : Value) → property value
  | .list nodes => goes.list nodes (goes.holdsInNodes nodes)
  | .map identity entries =>
      goes.map identity entries (goes.holdsInEntries entries)
  | .nil => goes.simple .nil rfl
  | .bool truth => goes.simple (.bool truth) rfl
  | .int number => goes.simple (.int number) rfl
  | .str text => goes.simple (.str text) rfl
  | .function identity template => goes.simple (.function identity template) rfl
  | .closure made => goes.simple (.closure made) rfl
  | .box cell => goes.simple (.box cell) rfl
  | .exception identity raised => goes.simple (.exception identity raised) rfl
  | .builtin native => goes.simple (.builtin native) rfl
termination_by structural value => value

theorem Value.Inductive.holdsInNodes (goes : Value.Inductive property) :
    (nodes : List (Node Value)) → ∀ node ∈ nodes, property node.value
  | [] => List.forall_mem_nil _
  | node :: nodes =>
      List.forall_mem_cons.2 ⟨goes.holdsInNode node, goes.holdsInNodes nodes⟩
termination_by structural nodes => nodes

theorem Value.Inductive.holdsInNode (goes : Value.Inductive property) :
    (node : Node Value) → property node.value
  | ⟨_, value⟩ => goes.holds value
termination_by structural node => node

theorem Value.Inductive.holdsInEntries (goes : Value.Inductive property) :
    (entries : List (String × Value)) → ∀ entry ∈ entries, property entry.2
  | [] => List.forall_mem_nil _
  | entry :: entries => List.forall_mem_cons.2
      ⟨goes.holdsInEntry entry, goes.holdsInEntries entries⟩
termination_by structural entries => entries

theorem Value.Inductive.holdsInEntry (goes : Value.Inductive property) :
    (entry : String × Value) → property entry.2
  | (_, value) => goes.holds value
termination_by structural entry => entry

end

end Induction

/-! ## Identity -/

/-- What tells objects apart. -/
inductive Identity where
  | nil
  | bool (truth : Bool)
  | int (number : Int64)
  | str (text : String)
  | list (start : Option Nat)
  | map (number : Nat)
  | function (number : Nat)
  | closure (number : Nat)
  | box (cell : Nat)
  | exception (number : Nat)
  | builtin (builtin : Builtin)

/-- The identity of a value. That of a list is the identity of its first
node. -/
def Value.identity : Value → Identity
  | .nil => .nil
  | .bool truth => .bool truth
  | .int number => .int number
  | .str text => .str text
  | .list nodes => .list (Chain.start? nodes)
  | .map number _ => .map number
  | .function number _ => .function number
  | .closure made => .closure made.identity
  | .box cell => .box cell
  | .exception number _ => .exception number
  | .builtin native => .builtin native

namespace Value

variable {left right first second third : Value}

/-- Two values are the same if they have the same identity. -/
theorem same_iff : left.same right = true ↔ left.identity = right.identity := by
  cases left <;> cases right <;>
    simp [Value.same, Value.eq, Value.identity, Chain.sameStart_iff]

/-- A list or a map is the same as lists or maps only. -/
theorem hasParts_of_same (same : left.identity = right.identity) :
    left.hasParts = right.hasParts := by
  have told (value : Value) : value.hasParts =
      match value.identity with
      | .list _ | .map _ => true
      | _ => false := by cases value <;> rfl
  rw [told, told, same]

theorem same_self (value : Value) : value.same value = true :=
  same_iff.2 rfl

theorem same_comm (left right : Value) : left.same right = right.same left := by
  rw [Bool.eq_iff_iff, same_iff, same_iff, eq_comm]

theorem same_trans
    (before : first.same second = true)
    (after : second.same third = true) :
    first.same third = true :=
  same_iff.2 ((same_iff.1 before).trans (same_iff.1 after))

/-! ## Equality -/

/-- Equality of values without parts is identity. -/
theorem eq_of_simple (simple : left.hasParts = false) (right : Value) :
    left.eq right = left.same right := by
  cases left <;> first | rfl | cases simple

theorem eq_list (left right : List (Node Value)) :
    (Value.list left).eq (.list right) =
      (Chain.sameStart left right || nodesEq left right) := rfl

theorem eq_map (identity other : Nat) (left right : List (String × Value)) :
    (Value.map identity left).eq (.map other right) =
      (identity == other || entriesEq left right) := rfl

/-- Equality stops early at objects that are the same. -/
theorem eq_of_same (same : left.same right = true) : left.eq right = true := by
  cases left with
  | list nodes =>
      cases right with
      | list others => rw [eq_list, show Chain.sameStart nodes others = true
          from same, Bool.true_or]
      | _ => cases same
  | map identity entries =>
      cases right with
      | map other others =>
          rw [eq_map, show (identity == other) = true from same, Bool.true_or]
      | _ => cases same
  | _ => exact (eq_of_simple rfl right).trans same

theorem eq_self (value : Value) : value.eq value = true :=
  eq_of_same (same_self value)

/-- Scalars are equal by their content alone. -/
theorem eq_of_isScalar {value other : Value}
    (valueScalar : value.isScalar)
    (otherScalar : other.isScalar)
    (equal : other.eq value) :
    other = value := by
  cases value <;> cases other <;> simp_all [isScalar, eq]

end Value

/-- Lists are compared element by element. -/
theorem nodesEq_iff {left right : List (Node Value)} :
    nodesEq left right = true ↔
      left.length = right.length ∧
      ∀ pair ∈ left.zip right, pair.1.value.eq pair.2.value = true := by
  induction left generalizing right with
  | nil => cases right <;> simp [nodesEq]
  | cons node nodes inner =>
      cases right with
      | nil => simp [nodesEq]
      | cons other others =>
          rw [nodesEq, Bool.and_eq_true, inner, List.zip_cons_cons,
            List.forall_mem_cons, nodeEq, List.length_cons, List.length_cons,
            Nat.add_right_cancel_iff]
          exact and_left_comm

/-- Maps are compared entry by entry. -/
theorem entriesEq_iff {left right : List (String × Value)} :
    entriesEq left right = true ↔
      left.map (·.1) = right.map (·.1) ∧
      ∀ pair ∈ left.zip right, pair.1.2.eq pair.2.2 = true := by
  induction left generalizing right with
  | nil => cases right <;> simp [entriesEq]
  | cons entry entries inner =>
      cases right with
      | nil => simp [entriesEq]
      | cons other others =>
          rw [entriesEq, Bool.and_eq_true, inner, List.zip_cons_cons,
            List.forall_mem_cons, entryEq, Bool.and_eq_true, beq_iff_eq,
            List.map_cons, List.map_cons, List.cons.injEq]
          exact and_and_and_comm

/-- Lists are compared the same way from both sides, if their elements are. -/
theorem nodesEq_comm {left : List (Node Value)}
    (each : ∀ node ∈ left, ∀ other, node.value.eq other = other.eq node.value)
    (right : List (Node Value)) :
    nodesEq left right = nodesEq right left := by
  induction left generalizing right with
  | nil => cases right <;> rfl
  | cons node nodes inner =>
      obtain ⟨first, others⟩ := List.forall_mem_cons.1 each
      cases right with
      | nil => rfl
      | cons other rest =>
          rw [nodesEq, nodesEq, inner others, nodeEq, nodeEq, first]

theorem entriesEq_comm {left : List (String × Value)}
    (each : ∀ entry ∈ left, ∀ other, entry.2.eq other = other.eq entry.2)
    (right : List (String × Value)) :
    entriesEq left right = entriesEq right left := by
  induction left generalizing right with
  | nil => cases right <;> rfl
  | cons entry entries inner =>
      obtain ⟨first, others⟩ := List.forall_mem_cons.1 each
      cases right with
      | nil => rfl
      | cons other rest =>
          rw [entriesEq, entriesEq, inner others, entryEq, entryEq, first,
            Bool.beq_comm]

/-- Equality is symmetric. -/
theorem Value.eq_comm (left right : Value) : left.eq right = right.eq left := by
  refine @Value.Inductive.holds
    (fun left => ∀ right, left.eq right = right.eq left)
    ⟨fun nodes each right => ?_, fun identity entries each right => ?_,
      fun left simple right => ?_⟩
    left right
  · cases right with
    | list others =>
        rw [eq_list, eq_list, Chain.sameStart_comm, nodesEq_comm each]
    | _ => rfl
  · cases right with
    | map other others =>
        rw [eq_map, eq_map, Bool.beq_comm, entriesEq_comm each]
    | _ => rfl
  · rw [eq_of_simple simple, same_comm]
    cases right with
    | list | map => cases left <;> first | rfl | cases simple
    | _ => exact (eq_of_simple rfl left).symm

/-! ## Looking at all elements -/

/-- Equality that looks at all elements: lists are as long as each other and
have equal elements, maps have the same keys and equal values, and everything
else has the same identity. -/
inductive Value.Alike : Value → Value → Prop
  | list {left right : List (Node Value)} (lengths : left.length = right.length)
      (elements : ∀ pair ∈ left.zip right, Alike pair.1.value pair.2.value) :
      Alike (.list left) (.list right)
  | map {identity other : Nat} {left right : List (String × Value)}
      (keys : left.map (·.1) = right.map (·.1))
      (values : ∀ pair ∈ left.zip right, Alike pair.1.2 pair.2.2) :
      Alike (.map identity left) (.map other right)
  | simple {left right : Value} (simple : left.hasParts = false)
      (same : left.identity = right.identity) : Alike left right

/-- Two elements at one place of a list are the same element. -/
theorem eq_of_mem_zip_self {α : Type} {items : List α}
    {pair : α × α}
    (member : pair ∈ items.zip items) :
    pair.1 = pair.2 := by
  obtain ⟨index, inside, rfl⟩ := List.mem_iff_getElem.1 member
  simp only [List.getElem_zip]

/-- Elements at one place of two lists have an element at that place of a third
list between them. -/
theorem exists_between_of_mem_zip {α : Type}
    {lefts middles rights : List α}
    (lengths : lefts.length = middles.length)
    {left right : α}
    (member : (left, right) ∈ lefts.zip rights) :
    ∃ middle, (left, middle) ∈ lefts.zip middles ∧
      (middle, right) ∈ middles.zip rights := by
  obtain ⟨index, inside, pair⟩ := List.mem_iff_getElem.1 member
  obtain ⟨rfl, rfl⟩ := Prod.mk.inj (List.getElem_zip.symm.trans pair)
  rw [List.length_zip] at inside
  have inMiddles : index < middles.length := by omega
  exact ⟨middles[index],
    List.mem_iff_getElem.2
    ⟨index, by rw [List.length_zip]; omega, List.getElem_zip⟩,
    List.mem_iff_getElem.2
      ⟨index, by rw [List.length_zip]; omega, List.getElem_zip⟩⟩

namespace Value.Alike

variable {first second third : Value}

theorem refl (value : Value) : value.Alike value :=
  @Value.Inductive.holds (fun value => value.Alike value)
    ⟨fun _ each => .list rfl fun pair member =>
        eq_of_mem_zip_self member ▸ each pair.1 (List.of_mem_zip member).1,
      fun _ _ each => .map rfl fun pair member =>
        eq_of_mem_zip_self member ▸ each pair.1 (List.of_mem_zip member).1,
      fun _ simple => .simple simple rfl⟩ value

theorem trans (before : first.Alike second) (after : second.Alike third) :
    first.Alike third := by
  induction before generalizing third with
  | list lengths _ inner =>
      cases after with
      | list lengthsAfter elements =>
          refine .list (lengths.trans lengthsAfter) fun pair member => ?_
          obtain ⟨middle, firstMiddle, middleSecond⟩ :=
            exists_between_of_mem_zip lengths member
          exact inner _ firstMiddle (elements _ middleSecond)
      | simple simple => cases simple
  | map keys _ inner =>
      cases after with
      | map keysAfter values =>
          refine .map (keys.trans keysAfter) fun pair member => ?_
          have lengths := congrArg List.length keys
          rw [List.length_map, List.length_map] at lengths
          obtain ⟨middle, firstMiddle, middleSecond⟩ :=
            exists_between_of_mem_zip lengths member
          exact inner _ firstMiddle (values _ middleSecond)
      | simple simple => cases simple
  | simple simple same =>
      have simpleAfter := Value.hasParts_of_same same ▸ simple
      cases after with
      | list | map => cases simpleAfter
      | simple _ sameAfter => exact .simple simple (same.trans sameAfter)

end Value.Alike

end EffectScript
