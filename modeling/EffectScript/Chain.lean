/-!
# Persistent lists

A chain is an immutable list whose nodes have identities: every node that an
operation makes has a number that no earlier node has, and a chain made from
another one shares its nodes wherever it can. Operations that make nodes take
the first unused number; they use one number per new node.
-/

namespace EffectScript

/-- A node of a chain. -/
structure Node (α : Type) where
  identity : Nat
  value : α
deriving DecidableEq

/-- A persistent list, given by its nodes from the first one on. -/
abbrev Chain (α : Type) := List (Node α)

namespace Chain

variable {α : Type}

/-- The values of a chain in order. -/
def values (chain : Chain α) : List α :=
  chain.map (·.value)

/-- A chain with a new first node; the rest is shared. -/
def cons (unused : Nat) (value : α) (chain : Chain α) : Chain α :=
  ⟨unused, value⟩ :: chain

/-- New nodes for the given values in front of a shared chain. -/
def prepend (unused : Nat) (values : List α) (chain : Chain α) : Chain α :=
  values.mapIdx (fun index value => ⟨unused + index, value⟩) ++ chain

/-- A chain of new nodes for the given values. -/
def ofValues (unused : Nat) (values : List α) : Chain α :=
  prepend unused values []

/-- The first chain followed by the second: the nodes of the first one are new,
those of the second one are shared. -/
def append (unused : Nat) (first second : Chain α) : Chain α :=
  prepend unused first.values second

/-- The first value of a chain. -/
def head? (chain : Chain α) : Option α :=
  (List.head? chain).map (·.value)

/-- The chain after the first node. -/
def tail? (chain : Chain α) : Option (Chain α) :=
  match chain with
  | [] => none
  | _ :: rest => some rest

/-- The value at an index. -/
def nth? (chain : Chain α) (index : Nat) : Option α :=
  (chain[index]?).map (·.value)

/-- Whether two chains start at the same node; two chains without nodes do. -/
def sameStart (first second : Chain α) : Bool :=
  match first, second with
  | [], [] => true
  | node :: _, other :: _ => node.identity == other.identity
  | _, _ => false

@[simp]
theorem values_cons (unused : Nat) (value : α) (chain : Chain α) :
    (cons unused value chain).values = value :: chain.values := rfl

@[simp]
theorem values_prepend (unused : Nat) (values : List α) (chain : Chain α) :
    (prepend unused values chain).values = values ++ chain.values := by
  simp only [Chain.values, prepend, List.map_append]
  congr 1
  apply List.ext_getElem? fun index => ?_
  simp [Function.comp_def]

@[simp]
theorem values_ofValues (unused : Nat) (values : List α) :
    (ofValues unused values).values = values := by
  rw [ofValues, values_prepend]
  exact List.append_nil values

@[simp]
theorem values_append (unused : Nat) (first second : Chain α) :
    (append unused first second).values = first.values ++ second.values := by
  simp [append]

end Chain

end EffectScript
