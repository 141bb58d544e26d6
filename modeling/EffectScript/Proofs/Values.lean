import EffectScript.Machine.Call
import EffectScript.Proofs.Outcome
import EffectScript.Proofs.Template

/-!
# Sound values

A value is sound when all closures in it are closures of sound templates with a
box for every captured slot. Like every property of values that lists and maps
have exactly when their elements have it, it is *stable*. Operators and native
functions give values with a stable property for values that have it; more
generally, they *keep* a property that elements share with their lists and maps,
and that new lists and maps get from their elements. So the *surroundings* of
the calls, which are globals, methods and boxes, stay sound.
-/

namespace EffectScript

/-- A closure of a sound template with as many boxes as the template
captures. -/
structure Closure.Sound (closure : Closure) : Prop where
  template : closure.template.Sound
  boxes : closure.boxes.length = closure.template.capturesInner.length

/-- All closures in the value are sound. -/
inductive Value.Sound : Value → Prop
  | nil : Sound .nil
  | bool (truth : Bool) : Sound (.bool truth)
  | int (number : Int64) : Sound (.int number)
  | str (text : String) : Sound (.str text)
  | list {nodes : List (Node Value)}
      (nodesSound : ∀ node ∈ nodes, Sound node.value) :
      Sound (.list nodes)
  | map {identity : Nat} {entries : List (String × Value)}
      (entriesSound : ∀ entry ∈ entries, Sound entry.2) :
        Sound (.map identity entries)
  | function (identity : Nat) (template : Template) :
      Sound (.function identity template)
  | closure {closure : Closure} (closureSound : closure.Sound) :
      Sound (.closure closure)
  | box (cell : Nat) : Sound (.box cell)
  | exception (identity : Nat) (exception : Exception) :
      Sound (.exception identity exception)
  | builtin (builtin : Builtin) : Sound (.builtin builtin)

namespace Value.Sound

theorem nodes {nodes : List (Node Value)} (sound : (Value.list nodes).Sound) :
    ∀ node ∈ nodes, node.value.Sound := by
  cases sound with
  | list nodesSound => exact nodesSound

theorem entries {identity : Nat}
    {entries : List (String × Value)}
    (sound : (Value.map identity entries).Sound) :
    ∀ entry ∈ entries, entry.2.Sound := by
  cases sound with
  | map entriesSound => exact entriesSound

theorem closed {closure : Closure} (sound : (Value.closure closure).Sound) :
    closure.Sound := by
  cases sound with
  | closure closureSound => exact closureSound

end Value.Sound

/-! ## Containers -/

/-- New nodes in front of a chain hold the given values. -/
theorem Chain.forall_prepend {property : Value → Prop}
    {unused : Nat} {values : List Value} {chain : Chain Value}
    (new : ∀ value ∈ values, property value)
    (old : ∀ node ∈ chain, property node.value) :
    ∀ node ∈ Chain.prepend unused values chain, property node.value := by
  intro node member
  rcases List.mem_append.1 member with front | back
  · obtain ⟨index, inside, rfl⟩ := List.mem_mapIdx.1 front
    exact new _ (List.getElem_mem inside)
  · exact old node back

theorem Dictionary.mem_insert {κ α : Type} [DecidableEq κ]
    [LT κ] [DecidableLT κ]
    {dictionary : Dictionary κ α} {key : κ} {value : α} {entry : κ × α}
    (member : entry ∈ dictionary.insert key value) :
    entry = (key, value) ∨ entry ∈ dictionary := by
  induction dictionary with
  | nil => exact .inl (List.mem_singleton.1 member)
  | cons first rest inner =>
      obtain ⟨other, held⟩ := first
      simp only [Dictionary.insert] at member
      split at member
      · rcases List.mem_cons.1 member with new | old
        · exact .inl new
        · exact .inr (List.mem_cons_of_mem _ old)
      · split at member
        · rcases List.mem_cons.1 member with new | old
          · exact .inl new
          · exact .inr old
        · rcases List.mem_cons.1 member with same | later
          · exact .inr (same ▸ List.mem_cons_self)
          · rcases inner later with new | old
            · exact .inl new
            · exact .inr (List.mem_cons_of_mem _ old)

theorem Dictionary.mem_ofEntries
    {entries : List (String × Value)} {entry : String × Value}
    (member : entry ∈ Dictionary.ofEntries entries) :
    entry ∈ entries := by
  have grown : ∀ (added : List (String × Value))
      (dictionary : Dictionary String Value),
      entry ∈ added.foldl
          (fun dictionary entry => dictionary.insert entry.1 entry.2)
            dictionary →
        entry ∈ added ∨ entry ∈ dictionary := by
    intro added
    induction added with
    | nil => exact fun dictionary present => .inr present
    | cons first rest inner =>
        intro dictionary present
        rcases inner _ present with later | held
        · exact .inl (List.mem_cons_of_mem _ later)
        · rcases Dictionary.mem_insert held with new | old
          · exact .inl (new ▸ List.mem_cons_self)
          · exact .inr old
  rcases grown entries [] member with listed | impossible
  · exact listed
  · cases impossible

theorem Dictionary.mem_of_find? {κ α : Type} [DecidableEq κ]
    {dictionary : Dictionary κ α} {key : κ} {value : α}
    (found : dictionary.find? key = some value) :
    ∃ entry ∈ dictionary, entry.2 = value := by
  induction dictionary with
  | nil => cases found
  | cons first rest inner =>
      simp only [Dictionary.find?] at found
      split at found
      · cases found
        exact ⟨first, List.mem_cons_self, rfl⟩
      · obtain ⟨entry, member, same⟩ := inner found
        exact ⟨entry, List.mem_cons_of_mem _ member, same⟩

theorem MethodTable.mem_of_find? {methods : MethodTable}
    {typeName : String} {operator : Operator} {method : Value}
    (found : methods.find? typeName operator = some method) :
    ∃ entry ∈ methods, entry.2 = method := by
  obtain ⟨before, after, parts, _⟩ := List.lookup_eq_some_iff.1 found
  exact ⟨((typeName, operator), method), by simp [parts], rfl⟩

theorem MethodTable.mem_define {methods : MethodTable}
    {typeName : String} {operator : Operator} {method : Value}
    {entry : (String × Operator) × Value}
    (member : entry ∈ methods.define typeName operator method) :
    entry.2 = method ∨ entry ∈ methods := by
  rcases List.mem_cons.1 member with new | old
  · exact .inl (by rw [new])
  · exact .inr (List.mem_filter.1 old).1

/-! ## Stable properties -/

/-- A property of all values without parts, which a list or a map has exactly
when its elements have it. Whether closures have it is left open. -/
structure Value.Stable (property : Value → Prop) : Prop where
  nil : property .nil
  bool (truth : Bool) : property (.bool truth)
  int (number : Int64) : property (.int number)
  str (text : String) : property (.str text)
  list {nodes : List (Node Value)} : property (.list nodes) ↔
    ∀ node ∈ nodes, property node.value
  map {identity : Nat} {entries : List (String × Value)} :
    property (.map identity entries) ↔ ∀ entry ∈ entries, property entry.2
  exception (identity : Nat) (exception : Exception) :
    property (.exception identity exception)
  builtin (builtin : Builtin) : property (.builtin builtin)

theorem Value.Sound.stable : Value.Stable Value.Sound where
  nil := .nil
  bool := .bool
  int := .int
  str := .str
  list := ⟨Value.Sound.nodes, .list⟩
  map := ⟨Value.Sound.entries, .map⟩
  exception := .exception
  builtin := .builtin

/-- A property of all values without parts, which a list has exactly when its
elements have it. The values in a map with the property have it, and so do the
maps that are made by insertions. -/
structure Value.Kept (property : Value → Prop) : Prop where
  nil : property .nil
  bool (truth : Bool) : property (.bool truth)
  int (number : Int64) : property (.int number)
  str (text : String) : property (.str text)
  list {nodes : List (Node Value)} : property (.list nodes) ↔
    ∀ node ∈ nodes, property node.value
  entries {identity : Nat} {entries : List (String × Value)} :
      property (.map identity entries) →
    ∀ entry ∈ entries, property entry.2
  ofEntries {identity : Nat} {entries : List (String × Value)} :
    (∀ entry ∈ entries, property entry.2) →
      property (.map identity (Dictionary.ofEntries entries))
  insert {identity other : Nat} {entries : Dictionary String Value}
    {key : String} {value : Value} :
    property (.map identity entries) → property value →
    property (.map other (entries.insert key value))
  exception (identity : Nat) (exception : Exception) :
    property (.exception identity exception)
  builtin (builtin : Builtin) : property (.builtin builtin)

theorem Value.Stable.kept {property : Value → Prop}
    (stable : Value.Stable property) : Value.Kept property where
  nil := stable.nil
  bool := stable.bool
  int := stable.int
  str := stable.str
  list := stable.list
  entries := stable.map.1
  ofEntries have_ := stable.map.2 fun entry member =>
    have_ entry (Dictionary.mem_ofEntries member)
  insert table has := stable.map.2 fun entry member => by
    rcases Dictionary.mem_insert member with rfl | old
    · exact has
    · exact stable.map.1 table entry old
  exception := stable.exception
  builtin := stable.builtin

/-- Nothing has to be known about values. -/
theorem Value.Kept.trivial : Value.Kept fun _ => True where
  nil := True.intro
  bool _ := True.intro
  int _ := True.intro
  str _ := True.intro
  list := iff_of_true True.intro fun _ _ => True.intro
  entries _ _ _ := True.intro
  ofEntries _ := True.intro
  insert _ _ := True.intro
  exception _ _ := True.intro
  builtin _ := True.intro

theorem Value.Kept.of_isScalar {property : Value → Prop}
    (kept : Value.Kept property)
    {value : Value}
    (scalar : value.isScalar) :
    property value := by
  cases value with
  | nil => exact kept.nil
  | bool truth => exact kept.bool truth
  | int number => exact kept.int number
  | str text => exact kept.str text
  | _ => cases scalar

/-! ## Results without parts -/

namespace Operator

variable {operator : Operator} {left right result : Value}

theorem isScalar_of_checked {number : Int}
    (checked : operator.checked number = .ok result) :
    result.isScalar := by
  unfold Operator.checked at checked
  split at checked <;> cases checked
  rfl

theorem isScalar_of_onIntegers {first second : Int64}
    (applied : operator.onIntegers first second = some (.ok result)) :
    result.isScalar := by
  cases operator <;>
    simp only [Operator.onIntegers, Option.some.injEq, reduceCtorEq] at applied
  case div =>
    split at applied
    · cases applied
    · exact isScalar_of_checked (Option.some.inj applied)
  case lt | gt =>
    cases applied
    rfl
  all_goals exact isScalar_of_checked applied

theorem isScalar_of_onTexts {first second : String}
    (applied : operator.onTexts first second = some (.ok result)) :
    result.isScalar := by
  unfold Operator.onTexts at applied
  split at applied <;> cases applied <;> rfl

/-- A rule makes a list of two lists and a scalar of other values. -/
theorem binary_cases {unused : Nat}
    (applied : operator.binary unused left right = some (.ok result)) :
    result.isScalar ∨ operator = .add ∧ ∃ first second, left = .list first ∧
    right = .list second ∧
      result = .list (Chain.append unused first second) := by
  unfold Operator.binary at applied
  split at applied
  · split at applied <;> cases applied
    exact .inl rfl
  · split at applied
    · exact .inl (isScalar_of_onIntegers applied)
    · exact .inl (isScalar_of_onTexts applied)
    next first second =>
      split at applied <;> cases applied
      next isAdd => exact .inr ⟨isAdd, first, second, rfl, rfl, rfl⟩
    · cases applied

theorem isScalar_of_unary {operand : Value}
    (applied : operator.unary operand = some (.ok result)) :
    result.isScalar := by
  unfold Operator.unary at applied
  split at applied
  · exact isScalar_of_checked (Option.some.inj applied)
  · cases applied

theorem isScalar_of_fallback {other : Option Value}
    (applied : operator.fallback left other = .ok result) :
    result.isScalar := by
  unfold Operator.fallback at applied
  split at applied
  · split at applied <;> cases applied
    rfl
  · cases applied

end Operator

/-! ## What native functions find -/

namespace Native

variable {value list index result : Value}

theorem isScalar_of_len (counted : Native.len value = .ok result) :
    result.isScalar := by
  unfold Native.len at counted
  split at counted <;> cases counted <;> rfl

theorem asList_eq {function : String} {nodes : Chain Value}
    (isList : list.asList function = .ok nodes) :
    list = .list nodes := by
  unfold Value.asList at isList
  split at isList <;> cases isList
  rfl

theorem asMap_eq {function : String}
    {entries : Dictionary String Value}
    (isMap : value.asMap function = .ok entries) :
    ∃ identity, value = .map identity entries := by
  unfold Value.asMap at isMap
  split at isMap <;> cases isMap
  exact ⟨_, rfl⟩

/-- What is found at an index is an element of the list. -/
theorem nth_mem (found : Native.nth list index = .ok result) :
    ∃ nodes, list = .list nodes ∧ ∃ node ∈ nodes, node.value = result := by
  obtain ⟨nodes, isList, rest⟩ := Outcome.bind_eq_ok.1 found
  refine ⟨nodes, asList_eq isList, ?_⟩
  split at rest
  · simp only at rest
    split at rest
    next inside =>
      cases rest
      split at inside
      · cases inside
      · obtain ⟨node, present, rfl⟩ := Option.map_eq_some_iff.1 inside
        exact ⟨node, List.mem_of_getElem? present, rfl⟩
    next => cases rest
  · cases rest

/-- The first element is an element of the list. -/
theorem head_mem (found : Native.head list = .ok result) :
    ∃ nodes, list = .list nodes ∧ ∃ node ∈ nodes, node.value = result := by
  obtain ⟨nodes, isList, rest⟩ := Outcome.bind_eq_ok.1 found
  refine ⟨nodes, asList_eq isList, ?_⟩
  split at rest
  next first =>
    cases rest
    obtain ⟨node, present, rfl⟩ := Option.map_eq_some_iff.1 first
    exact ⟨node, List.mem_of_mem_head? present, rfl⟩
  next => cases rest

theorem tail_eq (found : Native.tail list = .ok result) :
    ∃ node rest, list = .list (node :: rest) ∧ result = .list rest := by
  obtain ⟨nodes, isList, rest⟩ := Outcome.bind_eq_ok.1 found
  cases nodes with
  | nil => cases rest
  | cons first others =>
      cases rest
      exact ⟨first, others, asList_eq isList, rfl⟩

theorem pairs_mem {property : Value → Prop}
    {values : List Value} {entries : List (String × Value)}
    (has : ∀ value ∈ values, property value)
    (paired : Native.pairs values = .ok entries) :
    ∀ entry ∈ entries, property entry.2 := by
  induction values using Native.pairs.induct generalizing entries with
  | case1 key value rest inner =>
      simp only [Native.pairs] at paired
      obtain ⟨text, _, afterKey⟩ := Outcome.bind_eq_ok.1 paired
      obtain ⟨others, othersPaired, result⟩ := Outcome.bind_eq_ok.1 afterKey
      cases result
      intro entry member
      rcases List.mem_cons.1 member with rfl | later
      · exact has value (by simp)
      · exact inner (fun held old => has held (by simp [old]))
          othersPaired entry later
  | case2 values single =>
      unfold Native.pairs at paired
      split at paired
      next key value rest => exact (single key value rest rfl).elim
      next =>
        cases paired
        intro entry impossible
        cases impossible

end Native

section Kept

variable {property : Value → Prop} (kept : Value.Kept property)
include kept

/-! ## Operators -/

namespace Operator

variable {operator : Operator} {left right result : Value}

theorem binary_kept {unused : Nat}
    (leftHas : property left)
    (rightHas : property right)
    (applied : operator.binary unused left right = some (.ok result)) :
    property result := by
  rcases binary_cases applied with scalar | ⟨_, first, second, rfl, rfl, rfl⟩
  · exact kept.of_isScalar scalar
  · refine kept.list.2 (Chain.forall_prepend ?_ (kept.list.1 rightHas))
    intro value member
    obtain ⟨node, held, rfl⟩ := List.mem_map.1 member
    exact kept.list.1 leftHas node held

theorem unary_kept {operand : Value}
    (applied : operator.unary operand = some (.ok result)) :
    property result :=
  kept.of_isScalar (isScalar_of_unary applied)

theorem fallback_kept {other : Option Value}
    (applied : operator.fallback left other = .ok result) :
    property result :=
  kept.of_isScalar (isScalar_of_fallback applied)

end Operator

end Kept

namespace Machine

/-- The machine `after` differs from another one at most in its methods, its
output and its supply of identities; if all methods had a property, they still
have it. -/
structure Spares (property : Value → Prop) (machine after : Machine) :
    Prop where
  limits : after.limits = machine.limits
  frames : after.frames = machine.frames
  handlers : after.handlers = machine.handlers
  globals : after.globals = machine.globals
  cells : after.store.cells = machine.store.cells
  methods : (∀ entry ∈ machine.methods, property entry.2) →
    ∀ entry ∈ after.methods, property entry.2

theorem Spares.refl (property : Value → Prop) (machine : Machine) :
    machine.Spares property machine :=
  ⟨rfl, rfl, rfl, rfl, rfl, fun held => held⟩

theorem Spares.take
    (property : Value → Prop) (machine : Machine) (count : Nat) :
    machine.Spares property (machine.take count) :=
  ⟨rfl, rfl, rfl, rfl, rfl, fun held => held⟩

end Machine

theorem Native.method_spares {property : Value → Prop}
    {machine after : Machine} {typeName operatorName callable : Value}
    (has : property callable)
    (given : Native.method machine typeName operatorName callable = .ok after) :
    machine.Spares property after := by
  obtain ⟨type, _, afterType⟩ := Outcome.bind_eq_ok.1 given
  obtain ⟨name, _, rest⟩ := Outcome.bind_eq_ok.1 afterType
  split at rest
  · cases rest
  · split at rest
    · cases rest
      refine ⟨rfl, rfl, rfl, rfl, rfl, fun held entry member => ?_⟩
      rcases MethodTable.mem_define member with new | old
      · rw [new]
        exact has
      · exact held entry old
    · cases rest

/-- What a native function gives on a machine when it raises nothing: there is
one case for each function. The last argument is the machine behind it. -/
inductive Builtin.Invoked (machine : Machine) :
    Builtin → List Value → Value → Machine → Prop
  | print {values : List Value} {outlet : Outlet} :
      Invoked machine .print values .nil { machine with outlet := outlet }
  | len {value count : Value} (counted : Native.len value = .ok count) :
      Invoked machine .len [value] count machine
  | str (value : Value) :
      Invoked machine .str [value] (.str (value.display machine.store)) machine
  | list (values : List Value) :
      Invoked machine .list values
        (.list (Chain.ofValues machine.store.unused values))
        (machine.take values.length)
  | nth {nodes : List (Node Value)} {node : Node Value} (index : Value)
      (member : node ∈ nodes) :
      Invoked machine .nth [.list nodes, index] node.value machine
  | head {nodes : List (Node Value)} {node : Node Value}
      (member : node ∈ nodes) :
      Invoked machine .head [.list nodes] node.value machine
  | tail (node : Node Value) (rest : List (Node Value)) :
      Invoked machine .tail [.list (node :: rest)] (.list rest) machine
  | cons (first : Value) (nodes : List (Node Value)) :
      Invoked machine .cons [first, .list nodes]
        (.list (Chain.cons machine.store.unused first nodes)) (machine.take 1)
  | map {values : List Value} {entries : List (String × Value)}
      (paired : Native.pairs values = .ok entries) :
      Invoked machine .map values
        (.map machine.store.unused (Dictionary.ofEntries entries))
        (machine.take 1)
  | put (identity : Nat) (entries : Dictionary String Value) (text : String)
      (key value : Value) :
      Invoked machine .put [.map identity entries, key, value]
        (.map machine.store.unused (entries.insert text value)) (machine.take 1)
  | get (identity : Nat) (entries : Dictionary String Value) (text : String)
      (key : Value) :
      Invoked machine .get [.map identity entries, key]
        ((entries.find? text).getD .nil) machine
  | typeOf (value : Value) :
      Invoked machine .typeOf [value] (.str value.typeName) machine
  | exception (arguments : List Value) (exception : Exception) :
      Invoked machine .exception arguments
        (.exception machine.store.unused exception) (machine.take 1)
  | method {typeName operatorName callable : Value} {after : Machine}
      (changed : Native.method machine typeName operatorName callable =
        .ok after) :
      Invoked machine .method [typeName, operatorName, callable] .nil after
  | resume {value : Value} {after : Machine}
      (resumes : machine.resume = .ok after) :
      Invoked machine .resume [value] value after
  | listEq (left right : Value) :
      Invoked machine .listEq [left, right] (.bool (left.eq right)) machine
  | mapEq (left right : Value) :
      Invoked machine .mapEq [left, right] (.bool (left.eq right)) machine

theorem Builtin.invoke_inversion {builtin : Builtin}
    {machine after : Machine} {arguments : List Value} {result : Value}
    (invoked : builtin.invoke machine arguments = .ok (result, after)) :
    builtin.Invoked machine arguments result after := by
  unfold Builtin.invoke at invoked
  simp only at invoked
  split at invoked
  next =>
    unfold Native.print at invoked
    simp only at invoked
    split at invoked
    · cases invoked
      exact .print
    · cases invoked
  next value =>
    obtain ⟨count, counted, given⟩ := Outcome.bind_eq_ok.1 invoked
    cases given
    exact .len counted
  next value =>
    cases invoked
    exact .str value
  next =>
    cases invoked
    exact .list arguments
  next items index =>
    obtain ⟨item, found, given⟩ := Outcome.bind_eq_ok.1 invoked
    cases given
    obtain ⟨nodes, rfl, node, member, rfl⟩ := Native.nth_mem found
    exact .nth index member
  next items =>
    obtain ⟨item, found, given⟩ := Outcome.bind_eq_ok.1 invoked
    cases given
    obtain ⟨nodes, rfl, node, member, rfl⟩ := Native.head_mem found
    exact .head member
  next items =>
    obtain ⟨item, found, given⟩ := Outcome.bind_eq_ok.1 invoked
    cases given
    obtain ⟨node, rest, rfl, rfl⟩ := Native.tail_eq found
    exact .tail node rest
  next first rest =>
    obtain ⟨nodes, isList, given⟩ := Outcome.bind_eq_ok.1 invoked
    cases given
    cases Native.asList_eq isList
    exact .cons first nodes
  next =>
    split at invoked
    · obtain ⟨entries, paired, given⟩ := Outcome.bind_eq_ok.1 invoked
      cases given
      exact .map paired
    · cases invoked
  next table key value =>
    obtain ⟨entries, isMap, afterTable⟩ := Outcome.bind_eq_ok.1 invoked
    obtain ⟨text, _, given⟩ := Outcome.bind_eq_ok.1 afterTable
    cases given
    obtain ⟨identity, rfl⟩ := Native.asMap_eq isMap
    exact .put identity entries text key value
  next table key =>
    obtain ⟨entries, isMap, afterTable⟩ := Outcome.bind_eq_ok.1 invoked
    obtain ⟨text, _, given⟩ := Outcome.bind_eq_ok.1 afterTable
    cases given
    obtain ⟨identity, rfl⟩ := Native.asMap_eq isMap
    exact .get identity entries text key
  next value =>
    cases invoked
    exact .typeOf value
  next =>
    obtain ⟨text, _, given⟩ := Outcome.bind_eq_ok.1 invoked
    cases given
    exact .exception _ _
  next =>
    obtain ⟨kind, _, afterKind⟩ := Outcome.bind_eq_ok.1 invoked
    obtain ⟨text, _, given⟩ := Outcome.bind_eq_ok.1 afterKind
    cases given
    exact .exception _ _
  next => cases invoked
  next =>
    obtain ⟨after, changed, given⟩ := Outcome.bind_eq_ok.1 invoked
    cases given
    exact .method changed
  next =>
    obtain ⟨after, resumes, given⟩ := Outcome.bind_eq_ok.1 invoked
    cases given
    exact .resume resumes
  next left right =>
    cases invoked
    exact .listEq left right
  next left right =>
    cases invoked
    exact .mapEq left right
  next => cases invoked

/-- A native function gives a value with a kept property for arguments that have
it. It leaves frames and handlers alone unless it resumes. -/
theorem Builtin.invoke_kept {property : Value → Prop}
    (kept : Value.Kept property)
    {builtin : Builtin} {machine after : Machine} {arguments : List Value}
    {result : Value}
    (argumentsHave : ∀ value ∈ arguments, property value)
    (invoked : builtin.invoke machine arguments = .ok (result, after)) :
    property result ∧
      (machine.Spares property after ∨ builtin = .resume ∧
        machine.resume = .ok after) := by
  have same := Machine.Spares.refl property machine
  have taken := Machine.Spares.take property machine
  cases Builtin.invoke_inversion invoked with
  | print => exact ⟨kept.nil, .inl ⟨rfl, rfl, rfl, rfl, rfl, fun held => held⟩⟩
  | len counted =>
      exact ⟨kept.of_isScalar (Native.isScalar_of_len counted), .inl same⟩
  | str | typeOf => exact ⟨kept.str _, .inl same⟩
  | list => exact ⟨kept.list.2 (Chain.forall_prepend argumentsHave (by simp)),
      .inl (taken _)⟩
  | nth _ member | head member =>
      exact ⟨kept.list.1 (argumentsHave _ List.mem_cons_self)
        _ member, .inl same⟩
  | tail node rest =>
      have elements := List.forall_mem_cons.1
        (kept.list.1 (argumentsHave _ List.mem_cons_self))
      exact ⟨kept.list.2 elements.2, .inl same⟩
  | cons first nodes =>
      refine ⟨kept.list.2
        (List.forall_mem_cons.2 ⟨argumentsHave first (by simp), ?_⟩),
        .inl (taken 1)⟩
      exact kept.list.1 (argumentsHave _ (by simp))
  | map paired => exact ⟨kept.ofEntries (Native.pairs_mem argumentsHave paired),
      .inl (taken 1)⟩
  | put identity entries text key value =>
      exact ⟨kept.insert (argumentsHave _ List.mem_cons_self)
        (argumentsHave value (by simp)),
        .inl (taken 1)⟩
  | get identity entries text key =>
      refine ⟨?_, .inl same⟩
      cases found : entries.find? text with
      | none => exact kept.nil
      | some value =>
          obtain ⟨entry, member, rfl⟩ := Dictionary.mem_of_find? found
          exact kept.entries (argumentsHave _ List.mem_cons_self) entry member
  | exception => exact ⟨kept.exception _ _, .inl (taken 1)⟩
  | method changed =>
      exact ⟨kept.nil, .inl
        (Native.method_spares (argumentsHave _ (by simp)) changed)⟩
  | resume resumes => exact ⟨argumentsHave _ (by simp), .inr ⟨rfl, resumes⟩⟩
  | listEq | mapEq => exact ⟨kept.bool _, .inl same⟩

theorem Builtin.call_kept {property : Value → Prop}
    (kept : Value.Kept property)
    {builtin : Builtin} {machine after : Machine} {arguments : List Value}
    {result : Value}
    (argumentsHave : ∀ value ∈ arguments, property value)
    (called : builtin.call machine arguments = .ok (result, after)) :
    property result ∧
      (machine.Spares property after ∨ builtin = .resume ∧
        machine.resume = .ok after) := by
  obtain ⟨_, _, invoked⟩ := Outcome.bind_eq_ok.1 called
  exact Builtin.invoke_kept kept argumentsHave invoked

/-! ## What native functions overlook -/

/-- A change of a machine that leaves alone what native functions read and
write, other than for resumption. -/
structure Machine.Overlooked (change : Machine → Machine) : Prop where
  store : ∀ machine, (change machine).store = machine.store
  outlet : ∀ machine, (change machine).outlet = machine.outlet
  methods : ∀ machine, (change machine).methods = machine.methods
  take : ∀ machine count, (change machine).take count =
    change (machine.take count)
  setOutlet : ∀ (machine : Machine) outlet,
    { change machine with outlet := outlet } =
      change { machine with outlet := outlet }
  setMethods : ∀ (machine : Machine) methods,
    { change machine with methods := methods } =
      change { machine with methods := methods }

section Overlooked

open Outcome

variable {change : Machine → Machine} (overlooked : Machine.Overlooked change)
    {machine : Machine}
include overlooked

theorem Native.print_overlooked (values : List Value) :
    Native.print (change machine) values =
      (Native.print machine values).map fun outcome =>
        (outcome.1, change outcome.2) := by
  simp only [Native.print, overlooked.setOutlet]
  rw [overlooked.store, overlooked.outlet]
  split <;> rfl

theorem Native.method_overlooked (typeName operatorName callable : Value) :
    Native.method (change machine) typeName operatorName callable =
      (Native.method machine typeName operatorName callable).map change := by
  simp only [Native.method, overlooked.setMethods, overlooked.methods, map_bind]
  congr 1
  funext type
  congr 1
  funext name
  cases Operator.ofName? name with
  | none => rfl
  | some operator => cases Native.isMethod callable <;> rfl

theorem Builtin.invoke_overlooked
    (resumes : (change machine).resume = machine.resume.map change)
    (builtin : Builtin) (arguments : List Value) :
    builtin.invoke (change machine) arguments =
      (builtin.invoke machine arguments).map fun outcome =>
        (outcome.1, change outcome.2) := by
  fun_cases Builtin.invoke builtin machine arguments
  case case1 => exact Native.print_overlooked overlooked arguments
  case case9 paired =>
    simp only [Builtin.invoke, paired, if_true, map_bind, overlooked.store,
      overlooked.take]
    rfl
  case case10 unpaired =>
    simp only [Builtin.invoke, unpaired, if_false]
    rfl
  case case17 typeName operatorName callable =>
    simp only [Builtin.invoke, Native.method_overlooked overlooked]
    cases Native.method machine typeName operatorName callable <;> rfl
  case case18 value =>
    simp only [Builtin.invoke, resumes]
    cases machine.resume <;> rfl
  all_goals
    simp only [Builtin.invoke, map_bind, overlooked.store, overlooked.take]
    rfl

/-- A native function does the same after a change that it overlooks, if the
change does not affect what is resumed. -/
theorem Builtin.call_overlooked
    (resumes : (change machine).resume = machine.resume.map change)
    (builtin : Builtin) (arguments : List Value) :
    builtin.call (change machine) arguments =
      (builtin.call machine arguments).map fun outcome =>
        (outcome.1, change outcome.2) := by
  simp only [Builtin.call, map_bind,
    Builtin.invoke_overlooked overlooked resumes builtin arguments]

end Overlooked

/-! ## Surroundings -/

namespace Machine

/-- Globals, methods and the contents of boxes are sound. -/
structure Surrounded (machine : Machine) : Prop where
  globals : ∀ entry ∈ machine.globals, entry.2.Sound
  methods : ∀ entry ∈ machine.methods, entry.2.Sound
  cells : ∀ value ∈ machine.store.cells, value.Sound

theorem Surrounded.read {machine : Machine}
    (surrounded : machine.Surrounded)
    (cell : Nat) :
    (machine.store.read cell).Sound := by
  unfold Store.read
  cases present : machine.store.cells[cell]? with
  | none => exact .nil
  | some value => exact surrounded.cells value (Array.mem_of_getElem? present)

theorem Surrounded.write {machine : Machine}
    (surrounded : machine.Surrounded)
    (cell : Nat)
    {value : Value}
    (sound : value.Sound) :
    ({ machine with store := machine.store.write cell value } :
      Machine).Surrounded := by
  refine ⟨surrounded.globals, surrounded.methods, ?_⟩
  intro held member
  rcases Array.mem_or_eq_of_mem_setIfInBounds member with old | rfl
  · exact surrounded.cells held old
  · exact sound

/-- The machine `after` differs from another one at most in its surroundings,
which are sound. -/
structure Beside (machine after : Machine) : Prop where
  limits : after.limits = machine.limits
  frames : after.frames = machine.frames
  handlers : after.handlers = machine.handlers
  surrounded : after.Surrounded

theorem Surrounded.take {machine : Machine}
    (surrounded : machine.Surrounded)
    (count : Nat) :
    machine.Beside (machine.take count) :=
  ⟨rfl, rfl, rfl, ⟨surrounded.globals, surrounded.methods, surrounded.cells⟩⟩

end Machine

theorem Machine.Spares.beside {machine after : Machine}
    (spares : machine.Spares Value.Sound after)
    (surrounded : machine.Surrounded) :
    machine.Beside after :=
  ⟨spares.limits, spares.frames, spares.handlers, spares.globals ▸
    surrounded.globals,
    spares.methods surrounded.methods, spares.cells ▸ surrounded.cells⟩

/-- A native function gives a sound value. It leaves frames and handlers alone
unless it resumes. -/
theorem Builtin.call_sound {builtin : Builtin}
    {machine after : Machine} {arguments : List Value} {result : Value}
    (surrounded : machine.Surrounded)
    (argumentsSound : ∀ value ∈ arguments, value.Sound)
    (called : builtin.call machine arguments = .ok (result, after)) :
    result.Sound ∧
      (machine.Beside after ∨ builtin = .resume ∧
        machine.resume = .ok after) := by
  obtain ⟨sound, spares | resumes⟩ :=
    Builtin.call_kept Value.Sound.stable.kept argumentsSound called
  · exact ⟨sound, .inl (spares.beside surrounded)⟩
  · exact ⟨sound, .inr resumes⟩

end EffectScript
