import EffectScript.Value

/-!
# Equality of values

Scalars are equal by content, lists and maps by their elements, and everything
else by identity. Lists that start at the same node and maps that are the same
object need no look at their elements.
-/

namespace EffectScript

mutual

/-- Whether two values are equal. -/
def Value.eq : Value → Value → Bool
  | .nil, .nil => true
  | .bool left, .bool right => left == right
  | .int left, .int right => left == right
  | .str left, .str right => left == right
  | .list left, .list right => Chain.sameStart left right || nodesEq left right
  | .map identity left, .map other right =>
      identity == other || entriesEq left right
  | .function identity _, .function other _ => identity == other
  | .closure left, .closure right => left.identity == right.identity
  | .box left, .box right => left == right
  | .exception identity _, .exception other _ => identity == other
  | .builtin left, .builtin right => left == right
  | _, _ => false
termination_by structural left => left

/-- Whether two chains hold equal values, one by one. -/
def nodesEq : List (Node Value) → List (Node Value) → Bool
  | [], [] => true
  | left :: lefts, right :: rights => nodeEq left right && nodesEq lefts rights
  | _, _ => false
termination_by structural left => left

/-- Whether two nodes hold equal values. -/
def nodeEq : Node Value → Node Value → Bool
  | ⟨_, left⟩, ⟨_, right⟩ => left.eq right
termination_by structural left => left

/-- Whether two maps have the same keys with equal values. -/
def entriesEq : List (String × Value) → List (String × Value) → Bool
  | [], [] => true
  | left :: lefts, right :: rights =>
      entryEq left right && entriesEq lefts rights
  | _, _ => false
termination_by structural left => left

/-- Whether two entries have the same key and equal values. -/
def entryEq : String × Value → String × Value → Bool
  | (key, left), (other, right) => key == other && left.eq right
termination_by structural left => left

end

/-- Whether two values are the same object, or equal scalars. -/
def Value.same : Value → Value → Bool
  | .list left, .list right => Chain.sameStart left right
  | .map identity _, .map other _ => identity == other
  | left, right => left.eq right

end EffectScript
