import EffectScript.Machine.Step
import EffectScript.Proofs.Outcome

/-!
# Values with revised functions

Functions are carried wherever values go: in constant pools, closures, lists,
maps and boxes. A *revision* changes functions but not their names, and revising
a value revises all functions in it.

Printing and comparing look at nothing else of a function, and the operations on
lists, maps and method tables commute with revising. So operators and native
functions do with revised values what they do with the values themselves, and
raise the same exceptions.
-/

namespace EffectScript

/-- A change of functions that keeps their names. -/
structure Revision where
  revise : Template → Template
  name_revise (template : Template) : (revise template).name = template.name

mutual

/-- The value with all functions in it revised. -/
def Value.revised (revision : Revision) : Value → Value
  | .nil => .nil
  | .bool truth => .bool truth
  | .int number => .int number
  | .str text => .str text
  | .list nodes => .list (nodesRevised revision nodes)
  | .map identity entries => .map identity (entriesRevised revision entries)
  | .function identity template =>
      .function identity (template.revised revision)
  | .closure closure => .closure (closure.revised revision)
  | .box cell => .box cell
  | .exception identity exception => .exception identity exception
  | .builtin builtin => .builtin builtin
termination_by structural value => value

def nodesRevised (revision : Revision) : List (Node Value) → List (Node Value)
  | [] => []
  | node :: nodes => nodeRevised revision node :: nodesRevised revision nodes
termination_by structural nodes => nodes

def nodeRevised (revision : Revision) : Node Value → Node Value
  | ⟨identity, value⟩ => ⟨identity, value.revised revision⟩
termination_by structural node => node

def entriesRevised (revision : Revision) :
    List (String × Value) → List (String × Value)
  | [] => []
  | entry :: entries =>
      entryRevised revision entry :: entriesRevised revision entries
termination_by structural entries => entries

def entryRevised (revision : Revision) : String × Value → String × Value
  | (key, value) => (key, value.revised revision)
termination_by structural entry => entry

/-- The function revised, after the functions in its constant pool. -/
def Template.revised (revision : Revision) : Template → Template
  | ⟨name, arity, locals, code, constants, names, debug, capturesOuter,
      capturesInner, heapSlots⟩ =>
      revision.revise
        ⟨name, arity, locals, code, valuesRevised revision constants,
          names, debug, capturesOuter, capturesInner, heapSlots⟩
termination_by structural template => template

def valuesRevised (revision : Revision) : List Value → List Value
  | [] => []
  | value :: values => value.revised revision :: valuesRevised revision values
termination_by structural values => values

/-- The closure of the revised function. -/
def Closure.revised (revision : Revision) : Closure → Closure
  | ⟨identity, template, boxes⟩ =>
      ⟨identity, template.revised revision, boxes⟩
termination_by structural closure => closure

end

variable (revision : Revision)

/-! ## The parts of revised values -/

/-- The node with its value revised. -/
def Node.revised (node : Node Value) : Node Value :=
  ⟨node.identity, node.value.revised revision⟩

theorem nodesRevised_eq_map (nodes : List (Node Value)) :
    nodesRevised revision nodes = nodes.map (Node.revised revision) := by
  induction nodes with
  | nil => rfl
  | cons node nodes inner =>
      rw [nodesRevised, inner, List.map_cons, nodeRevised, Node.revised]

theorem entriesRevised_eq_map (entries : List (String × Value)) :
    entriesRevised revision entries =
      entries.map fun entry => (entry.1, entry.2.revised revision) := by
  induction entries with
  | nil => rfl
  | cons entry entries inner =>
      rw [entriesRevised, inner, List.map_cons, entryRevised]

theorem valuesRevised_eq_map (values : List Value) :
    valuesRevised revision values = values.map (Value.revised revision) := by
  induction values with
  | nil => rfl
  | cons value values inner => rw [valuesRevised, inner, List.map_cons]

theorem Template.revised_eq (template : Template) :
    template.revised revision = revision.revise
      { template with
        constants := template.constants.map (Value.revised revision) } := by
  cases template
  rw [Template.revised, valuesRevised_eq_map]

@[simp]
theorem Template.name_revised (template : Template) :
    (template.revised revision).name = template.name := by
  rw [Template.revised_eq, revision.name_revise]

namespace Closure

variable (closure : Closure)

@[simp]
theorem identity_revised :
    (closure.revised revision).identity = closure.identity := by
  cases closure
  rfl

@[simp]
theorem template_revised :
    (closure.revised revision).template =
      closure.template.revised revision := by
  cases closure
  rfl

@[simp]
theorem boxes_revised : (closure.revised revision).boxes = closure.boxes := by
  cases closure
  rfl

end Closure

/-! ## What can be seen of a value -/

mutual

@[simp]
theorem Value.displayWith_revised (boxText : Nat → String) : (value : Value) →
    (value.revised revision).displayWith boxText = value.displayWith boxText
  | .nil | .bool _ | .int _ | .str _ | .box _ | .exception _ _
  | .builtin _ => rfl
  | .list nodes => by
      rw [Value.revised, Value.displayWith, Value.displayWith,
        displayNodes_revised boxText nodes]
  | .map _ entries => by
      rw [Value.revised, Value.displayWith, Value.displayWith,
        displayEntries_revised boxText entries]
  | .function _ template => by
      rw [Value.revised, Value.displayWith, Value.displayWith,
        Template.name_revised]
  | .closure closure => by
      rw [Value.revised, Value.displayWith, Value.displayWith,
        Closure.template_revised, Template.name_revised]

theorem displayNodes_revised (boxText : Nat → String) :
    (nodes : List (Node Value)) →
      displayNodes boxText (nodesRevised revision nodes) =
        displayNodes boxText nodes
  | [] => rfl
  | node :: nodes => by
      rw [nodesRevised, displayNodes, displayNodes,
        displayNode_revised boxText node, displayNodes_revised boxText nodes]

theorem displayNode_revised (boxText : Nat → String) : (node : Node Value) →
    displayNode boxText (nodeRevised revision node) = displayNode boxText node
  | ⟨_, value⟩ => by
      have same := Value.displayWith_revised boxText value
      cases value <;> first | rfl | exact same

theorem displayEntries_revised (boxText : Nat → String) :
    (entries : List (String × Value)) →
      displayEntries boxText (entriesRevised revision entries) =
        displayEntries boxText entries
  | [] => rfl
  | entry :: entries => by
      rw [entriesRevised, displayEntries, displayEntries,
        displayEntry_revised boxText entry,
        displayEntries_revised boxText entries]

theorem displayEntry_revised (boxText : Nat → String) :
    (entry : String × Value) →
      displayEntry boxText (entryRevised revision entry) =
        displayEntry boxText entry
  | (key, value) => by
      have same := Value.displayWith_revised boxText value
      cases value <;> first | rfl | exact congrArg (key ++ ": " ++ ·) same

end

/-- Revising keeps the identities of nodes. -/
theorem Chain.sameStart_revised (lefts rights : List (Node Value)) :
    Chain.sameStart (nodesRevised revision lefts)
        (nodesRevised revision rights) =
      Chain.sameStart lefts rights := by
  rw [nodesRevised_eq_map, nodesRevised_eq_map]
  cases lefts <;> cases rights <;> rfl

mutual

@[simp]
theorem Value.eq_revised : (left right : Value) →
    (left.revised revision).eq (right.revised revision) = left.eq right
  | .list lefts, right => by
      cases right with
      | list rights =>
          rw [Value.revised, Value.revised, Value.eq, Value.eq,
            Chain.sameStart_revised, nodesEq_revised lefts rights]
      | _ => rfl
  | .map _ lefts, right => by
      cases right with
      | map _ rights =>
          rw [Value.revised, Value.revised, Value.eq, Value.eq,
            entriesEq_revised lefts rights]
      | _ => rfl
  | .closure ⟨_, _, _⟩, right => by
      cases right with
      | closure other =>
          cases other
          rfl
      | _ => rfl
  | .nil, right | .bool _, right | .int _, right | .str _, right
  | .function _ _, right | .box _, right | .exception _ _, right
  | .builtin _, right => by cases right <;> rfl
termination_by structural left => left

theorem nodesEq_revised : (lefts rights : List (Node Value)) →
    nodesEq (nodesRevised revision lefts) (nodesRevised revision rights) =
      nodesEq lefts rights
  | [], rights => by cases rights <;> rfl
  | left :: lefts, rights => by
      cases rights with
      | nil => rfl
      | cons right rights =>
          rw [nodesRevised, nodesRevised, nodesEq, nodesEq,
            nodeEq_revised left right, nodesEq_revised lefts rights]
termination_by structural lefts => lefts

theorem nodeEq_revised : (left right : Node Value) →
    nodeEq (nodeRevised revision left) (nodeRevised revision right) =
      nodeEq left right
  | ⟨_, left⟩, ⟨_, right⟩ => Value.eq_revised left right
termination_by structural left => left

theorem entriesEq_revised : (lefts rights : List (String × Value)) →
    entriesEq (entriesRevised revision lefts) (entriesRevised revision rights) =
      entriesEq lefts rights
  | [], rights => by cases rights <;> rfl
  | left :: lefts, rights => by
      cases rights with
      | nil => rfl
      | cons right rights =>
          rw [entriesRevised, entriesRevised, entriesEq, entriesEq,
            entryEq_revised left right, entriesEq_revised lefts rights]
termination_by structural lefts => lefts

theorem entryEq_revised : (left right : String × Value) →
    entryEq (entryRevised revision left) (entryRevised revision right) =
      entryEq left right
  | (key, left), (other, right) =>
      congrArg (key == other && ·) (Value.eq_revised left right)
termination_by structural left => left

end

namespace Value

variable (value : Value)

@[simp]
theorem typeName_revised :
    (value.revised revision).typeName = value.typeName := by
  cases value <;> rfl

@[simp]
theorem isTruthy_revised :
    (value.revised revision).isTruthy = value.isTruthy := by
  cases value <;> rfl

@[simp]
theorem isScalar_revised :
    (value.revised revision).isScalar = value.isScalar := by
  cases value <;> rfl

@[simp]
theorem isMethod_revised :
    Native.isMethod (value.revised revision) = Native.isMethod value := by
  cases value <;> rfl

@[simp]
theorem reprWith_revised (boxText : Nat → String) :
    (value.revised revision).reprWith boxText = value.reprWith boxText := by
  have same := displayWith_revised revision boxText value
  cases value <;> first | rfl | exact same

@[simp]
theorem same_revised (other : Value) :
    (value.revised revision).same (other.revised revision) =
      value.same other := by
  have same := eq_revised revision value other
  cases value with
  | list nodes =>
      cases other with
      | list others => exact Chain.sameStart_revised revision nodes others
      | _ => exact same
  | map identity entries => cases other <;> rfl
  | _ => exact same

end Value

/-! ## Containers -/

section Containers

variable {κ : Type} [DecidableEq κ] {change : Value → Value}

theorem Dictionary.find?_map (entries : Dictionary κ Value) (key : κ) :
    Dictionary.find? (entries.map fun entry => (entry.1, change entry.2)) key =
      (entries.find? key).map change := by
  induction entries with
  | nil => rfl
  | cons entry entries inner =>
      simp only [List.map_cons, Dictionary.find?, inner]
      split <;> rfl

theorem Dictionary.insert_map [LT κ] [DecidableLT κ]
    (entries : Dictionary κ Value)
    (key : κ) (value : Value) :
    Dictionary.insert (entries.map fun entry => (entry.1, change entry.2)) key
        (change value) =
      (entries.insert key value).map fun entry =>
        (entry.1, change entry.2) := by
  induction entries with
  | nil => rfl
  | cons entry entries inner =>
      simp only [List.map_cons, Dictionary.insert, inner]
      split
      · rfl
      · split <;> rfl

theorem Dictionary.ofEntries_map [LT κ] [DecidableLT κ]
    (entries : List (κ × Value)) :
    Dictionary.ofEntries (entries.map fun entry => (entry.1, change entry.2)) =
      (Dictionary.ofEntries entries).map fun entry =>
        (entry.1, change entry.2) := by
  have grown : ∀ held : Dictionary κ Value,
      (entries.map fun entry => (entry.1, change entry.2)).foldl
          (fun dictionary entry => Dictionary.insert dictionary entry.1 entry.2)
          (held.map fun entry => (entry.1, change entry.2)) =
        (entries.foldl (fun dictionary entry =>
          Dictionary.insert dictionary entry.1 entry.2) held).map
            fun entry => (entry.1, change entry.2) := by
    induction entries with
    | nil => exact fun _ => rfl
    | cons entry entries inner =>
        intro held
        rw [List.map_cons, List.foldl_cons, List.foldl_cons,
          Dictionary.insert_map, inner]
  exact grown []

theorem MethodTable.find?_map
    (methods : MethodTable) (typeName : String) (operator : Operator) :
    MethodTable.find? (methods.map fun entry => (entry.1, change entry.2))
        typeName operator =
      (methods.find? typeName operator).map change := by
  induction methods with
  | nil => rfl
  | cons entry methods inner =>
      simp only [MethodTable.find?, List.map_cons] at inner ⊢
      rw [List.lookup_cons, List.lookup_cons]
      split
      · rfl
      · exact inner

theorem MethodTable.define_map
    (methods : MethodTable) (typeName : String) (operator : Operator)
    (method : Value) :
    MethodTable.define (methods.map fun entry => (entry.1, change entry.2))
        typeName operator (change method) =
      (methods.define typeName operator method).map
        fun entry => (entry.1, change entry.2) := by
  simp only [MethodTable.define, List.filter_map, List.map_cons]
  rfl

end Containers

theorem Chain.values_map_revised (nodes : List (Node Value)) :
    Chain.values (nodes.map (Node.revised revision)) =
      (Chain.values nodes).map (Value.revised revision) := by
  simp only [Chain.values, List.map_map]
  rfl

theorem Chain.prepend_revised
    (unused : Nat) (values : List Value)
    (nodes : List (Node Value)) :
    Chain.prepend unused (values.map (Value.revised revision))
        (nodes.map (Node.revised revision)) =
      (Chain.prepend unused values nodes).map (Node.revised revision) := by
  rw [Chain.prepend, Chain.prepend, List.map_append]
  congr 1
  apply List.ext_getElem?
  intro index
  simp only [List.getElem?_mapIdx, List.getElem?_map, Option.map_map]
  rfl

theorem Chain.nth?_revised (nodes : List (Node Value)) (index : Nat) :
    Chain.nth? (nodes.map (Node.revised revision)) index =
      (Chain.nth? nodes index).map (Value.revised revision) := by
  simp only [Chain.nth?, List.getElem?_map, Option.map_map]
  rfl

/-! ## Operators -/

namespace Operator

variable (operator : Operator) (left right : Value)

/-- Operators cover revised operands by the same rules. -/
@[simp]
theorem binary_revised (unused : Nat) :
    operator.binary unused (left.revised revision) (right.revised revision) =
      (operator.binary unused left right).map
        (Except.map (Value.revised revision)) := by
  have integers (first second : Int64) : operator.onIntegers first second =
      (operator.onIntegers first second).map
        (Except.map (Value.revised revision)) := by
    cases operator <;> simp only [onIntegers, checked] <;> repeat' split
    all_goals rfl
  have texts (first second : String) : operator.onTexts first second =
      (operator.onTexts first second).map
        (Except.map (Value.revised revision)) := by
    cases operator <;> rfl
  simp only [binary, Value.isScalar_revised, Value.eq_revised]
  split
  · split <;> rfl
  · cases left with
    | int first =>
        cases right with
        | int second => exact integers first second
        | _ => rfl
    | str first =>
        cases right with
        | str second => exact texts first second
        | _ => rfl
    | list firsts =>
        cases right with
        | list seconds =>
            simp only [Value.revised, nodesRevised_eq_map, Chain.append,
              Chain.values_map_revised, Chain.prepend_revised]
            split
            · simp only [Option.map_some, Except.map, Value.revised,
                nodesRevised_eq_map]
            · rfl
        | _ => rfl
    | _ => rfl

@[simp]
theorem identitiesTaken_revised :
    operator.identitiesTaken (left.revised revision) (right.revised revision) =
      operator.identitiesTaken left right := by
  cases operator with
  | add =>
      cases left with
      | list nodes =>
          cases right with
          | list others =>
              simp only [Value.revised, nodesRevised_eq_map, identitiesTaken,
                List.length_map]
          | _ => rfl
      | _ => rfl
  | _ => rfl

@[simp]
theorem unary_revised :
    operator.unary (left.revised revision) =
      (operator.unary left).map (Except.map (Value.revised revision)) := by
  cases operator with
  | neg =>
      cases left with
      | int number =>
          simp only [unary, checked, Value.revised]
          split <;> rfl
      | _ => rfl
  | _ => rfl

@[simp]
theorem fallback_revised (right : Option Value) :
    operator.fallback (left.revised revision)
        (right.map (Value.revised revision)) =
      (operator.fallback left right).map (Value.revised revision) := by
  cases right with
  | none =>
      simp only [fallback, Option.map_none, Value.typeName_revised]
      rfl
  | some other =>
      simp only [fallback, Option.map_some, Value.same_revised,
        Value.typeName_revised]
      split <;> rfl

end Operator

/-! ## Arguments of native functions -/

namespace Value

variable (value : Value) (function : String)

@[simp]
theorem asText_revised :
    (value.revised revision).asText function = value.asText function := by
  cases value <;> rfl

@[simp]
theorem asList_revised :
    (value.revised revision).asList function =
      (value.asList function).map (List.map (Node.revised revision)) := by
  cases value with
  | list nodes => simp only [revised, nodesRevised_eq_map, asList, Except.map]
  | _ => rfl

@[simp]
theorem asMap_revised :
    (value.revised revision).asMap function =
      (value.asMap function).map
        (List.map fun entry => (entry.1, entry.2.revised revision)) := by
  cases value with
  | map identity entries =>
      simp only [revised, entriesRevised_eq_map, asMap, Except.map]
  | _ => rfl

end Value

/-! ## Native functions on lists and maps -/

namespace Native

variable (left right : Value)

theorem len_revised :
    len (left.revised revision) = (len left).map (Value.revised revision) := by
  cases left with
  | list nodes =>
      simp only [len, Value.revised, nodesRevised_eq_map, List.length_map]
      rfl
  | map identity entries =>
      simp only [len, Value.revised, entriesRevised_eq_map, List.length_map]
      rfl
  | _ => rfl

theorem nth_revised :
    nth (left.revised revision) (right.revised revision) =
      (nth left right).map (Value.revised revision) := by
  simp only [nth, Value.asList_revised, Outcome.bind_map, Outcome.map_bind]
  congr 1
  funext nodes
  cases right with
  | int number =>
      have found : (if number.toInt < 0 then none
            else Chain.nth? (nodes.map (Node.revised revision))
              number.toInt.toNat) =
          (if number.toInt < 0 then none
            else Chain.nth? nodes number.toInt.toNat).map
              (Value.revised revision) := by
        rw [Chain.nth?_revised]
        split <;> rfl
      simp only [Value.revised, List.length_map, found]
      cases (if number.toInt < 0 then none
        else Chain.nth? nodes number.toInt.toNat) <;> rfl
  | _ => rfl

theorem head_revised :
    head (left.revised revision) =
      (head left).map (Value.revised revision) := by
  simp only [head, Value.asList_revised, Outcome.bind_map, Outcome.map_bind]
  congr 1
  funext nodes
  cases nodes <;> rfl

theorem tail_revised :
    tail (left.revised revision) =
      (tail left).map (Value.revised revision) := by
  simp only [tail, Value.asList_revised, Outcome.bind_map, Outcome.map_bind]
  congr 1
  funext nodes
  cases nodes with
  | nil => rfl
  | cons node nodes =>
      simp only [List.map_cons, Chain.tail?, Except.map, Value.revised,
        nodesRevised_eq_map]

theorem pairs_revised : (values : List Value) →
    pairs (values.map (Value.revised revision)) =
      (pairs values).map
        (List.map fun entry => (entry.1, entry.2.revised revision))
  | [] => rfl
  | [_] => rfl
  | key :: value :: rest => by
      simp only [List.map_cons, pairs, Value.asText_revised, pairs_revised rest,
        Outcome.bind_map, Outcome.map_bind]
      rfl

end Native

end EffectScript
