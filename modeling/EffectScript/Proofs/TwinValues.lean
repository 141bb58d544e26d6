import EffectScript.Proofs.Alignment
import EffectScript.Proofs.Revision
import Mathlib.Data.List.Forall2
import Mathlib.Data.Option.Basic

/-!
# Twin values

Two functions are *twins* when they are the same, or when their codes are the
two ways to write some items and the functions in their pools are twins again.
Two values are twins when they differ at most in that the closures in them are
closures of twins.

A value without its code is its *bare* form. Twins have one bare form, and
printing and comparing look at nothing else. So operators and native functions
give twins for twins and raise the same exceptions.
-/

namespace EffectScript

/-! ## Functions -/

/-- Functions that differ at most in their code, the lines of its bytes and
their constants. -/
structure Template.Alike (first second : Template) : Prop where
  name : second.name = first.name
  arity : second.arity = first.arity
  locals : second.locals = first.locals
  names : second.names = first.names
  slotNames : second.debug.slotNames = first.debug.slotNames
  comments : second.debug.comments = first.debug.comments
  capturesOuter : second.capturesOuter = first.capturesOuter
  capturesInner : second.capturesInner = first.capturesInner
  heapSlots : second.heapSlots = first.heapSlots

/-- Constants that are one scalar, or functions with one identity. -/
def Value.SameConstant (first second : Value) : Prop :=
  (first.isScalar ∧ second = first) ∨
    ∃ identity inner other, first = .function identity inner ∧
      second = .function identity other

/-- Functions that do the same. -/
inductive Template.Twin : Template → Template → Prop
  | same (template : Template) : Twin template template
  | written {items : List Item} {first second : Template}
      (alike : first.Alike second)
      (code : Template.Written items first second)
      (constants : List.Forall₂ Value.SameConstant first.constants
        second.constants)
      (functions : ∀ (index identity another : Nat) (inner other : Template),
        first.constants[index]? = some (.function identity inner) →
          second.constants[index]? = some (.function another other) →
          Twin inner other) :
      Twin first second

theorem Template.Alike.refl (template : Template) : template.Alike template :=
  ⟨rfl, rfl, rfl, rfl, rfl, rfl, rfl, rfl, rfl⟩

theorem Template.Twin.alike {first second : Template}
    (twin : first.Twin second) :
    first.Alike second := by
  cases twin with
  | same => exact .refl _
  | written alike => exact alike

theorem Template.Twin.aligned {first second : Template}
    (twin : first.Twin second) :
    ∃ alignment, Template.Aligned alignment first second := by
  cases twin with
  | same => exact ⟨.same, rfl⟩
  | @written items _ _ _ code => exact ⟨.written items, code⟩

/-! ## Values -/

/-- Values that differ at most in that the functions in them are twins. -/
inductive Value.Twin : Value → Value → Prop
  | nil : Twin .nil .nil
  | bool (truth : Bool) : Twin (.bool truth) (.bool truth)
  | int (number : Int64) : Twin (.int number) (.int number)
  | str (text : String) : Twin (.str text) (.str text)
  | list {first second : List (Node Value)}
      (identities : second.map Node.identity = first.map Node.identity)
      (values : ∀ (index : Nat) (node other : Node Value),
        first[index]? = some node →
        second[index]? = some other → Twin node.value other.value) :
      Twin (.list first) (.list second)
  | map (identity : Nat) {first second : List (String × Value)}
      (keys : second.map Prod.fst = first.map Prod.fst)
      (values : ∀ (index : Nat) (entry other : String × Value),
        first[index]? = some entry →
        second[index]? = some other → Twin entry.2 other.2) :
      Twin (.map identity first) (.map identity second)
  | function (identity : Nat) {first second : Template}
      (templates : first.Twin second) :
      Twin (.function identity first) (.function identity second)
  | closure (identity : Nat) {first second : Template} (boxes : List Nat)
      (templates : first.Twin second) :
      Twin (.closure ⟨identity, first, boxes⟩)
        (.closure ⟨identity, second, boxes⟩)
  | box (cell : Nat) : Twin (.box cell) (.box cell)
  | exception (identity : Nat) (exception : Exception) :
      Twin (.exception identity exception) (.exception identity exception)
  | builtin (builtin : Builtin) : Twin (.builtin builtin) (.builtin builtin)

/-- Nodes with one identity and twin values. -/
def Node.Twin (first second : Node Value) : Prop :=
  second.identity = first.identity ∧ first.value.Twin second.value

/-- Entries under one key with twin values. -/
def EntryTwin {κ : Type} (first second : κ × Value) : Prop :=
  second.1 = first.1 ∧ first.2.Twin second.2

/-- Closures with one identity and the same boxes, of twins. -/
structure Closure.Twin (first second : Closure) : Prop where
  identity : second.identity = first.identity
  boxes : second.boxes = first.boxes
  templates : first.template.Twin second.template

/-- Lists are related entry by entry when they have the same keys and related
entries at each index. -/
theorem forall₂_iff_getElem? {α β κ : Type}
    {related : α → β → Prop} {key : α → κ} {another : β → κ} {first : List α}
    {second : List β} :
    List.Forall₂ (fun entry other => another other = key entry ∧
        related entry other) first second ↔
      second.map another = first.map key ∧
        ∀ (index : Nat) (entry : α) (other : β), first[index]? = some entry →
          second[index]? = some other → related entry other := by
  induction first generalizing second with
  | nil => simp
  | cons entry first inner =>
      cases second with
      | nil => simp
      | cons other second =>
          rw [List.forall₂_cons, inner, List.map_cons, List.map_cons,
            List.cons.injEq]
          constructor
          · rintro ⟨⟨keyEq, related⟩, keys, all⟩
            refine ⟨⟨keyEq, keys⟩, ?_⟩
            rintro (_ | index) held there
            · rintro ⟨⟩ ⟨⟩
              exact related
            · exact all index held there
          · rintro ⟨⟨keyEq, keys⟩, all⟩
            exact ⟨⟨keyEq, all 0 entry other rfl rfl⟩, keys,
              fun index held there => all (index + 1) held there⟩

namespace Value.Twin

theorem list_iff {nodes : List (Node Value)} {second : Value} :
    (Value.list nodes).Twin second ↔
      ∃ others, second = .list others ∧
        List.Forall₂ Node.Twin nodes others := by
  constructor
  · intro twin
    cases twin with
    | list identities values =>
        exact ⟨_, rfl, forall₂_iff_getElem?.2 ⟨identities, values⟩⟩
  · rintro ⟨others, rfl, all⟩
    obtain ⟨identities, values⟩ := forall₂_iff_getElem?.1 all
    exact .list identities values

theorem map_iff {identity : Nat}
    {entries : List (String × Value)} {second : Value} :
    (Value.map identity entries).Twin second ↔
      ∃ others, second = .map identity others ∧
        List.Forall₂ EntryTwin entries others := by
  constructor
  · intro twin
    cases twin with
    | map _ keys values => exact ⟨_, rfl, forall₂_iff_getElem?.2 ⟨keys, values⟩⟩
  · rintro ⟨others, rfl, all⟩
    obtain ⟨keys, values⟩ := forall₂_iff_getElem?.1 all
    exact .map identity keys values

theorem closure_iff {closure : Closure} {second : Value} :
    (Value.closure closure).Twin second ↔
      ∃ other, second = .closure other ∧ closure.Twin other := by
  constructor
  · intro twin
    cases twin with
    | closure identity boxes templates => exact ⟨_, rfl, rfl, rfl, templates⟩
  · rintro ⟨⟨identity, other, boxes⟩, rfl, identityEq, boxesEq, templates⟩
    obtain ⟨_, template, _⟩ := closure
    cases identityEq
    cases boxesEq
    exact .closure _ _ templates

/-- Every value is its own twin. -/
theorem refl : (value : Value) → value.Twin value
  | .nil => .nil
  | .bool truth => .bool truth
  | .int number => .int number
  | .str text => .str text
  | .list nodes => .list rfl fun index node other held there => by
      cases held.symm.trans there
      exact refl node.value
  | .map identity entries =>
        .map identity rfl fun index entry other held there => by
      cases held.symm.trans there
      exact refl entry.2
  | .function identity template => .function identity (.same template)
  | .closure ⟨identity, template, boxes⟩ =>
      .closure identity boxes (.same template)
  | .box cell => .box cell
  | .exception identity raised => .exception identity raised
  | .builtin native => .builtin native
decreasing_by
  · have smaller := List.sizeOf_lt_of_mem (List.mem_of_getElem? held)
    obtain ⟨_, value⟩ := node
    simp at smaller ⊢
    omega
  · have smaller := List.sizeOf_lt_of_mem (List.mem_of_getElem? held)
    obtain ⟨_, value⟩ := entry
    simp at smaller ⊢
    omega

end Value.Twin

/-! ## Bare values -/

/-- A function is left without its code and what is known about the bytes of
it. -/
def Revision.stripping : Revision where
  revise template :=
    { template with code := #[], debug := { template.debug with lines := #[] } }
  name_revise _ := rfl

/-- The value without the code of the functions in it. -/
abbrev Value.bare : Value → Value :=
  Value.revised .stripping

/-- The entries with their values bare. -/
abbrev bareEntries : List (String × Value) → List (String × Value) :=
  entriesRevised .stripping

/-- The function without its code, and so the functions in its constant pool. -/
abbrev Template.bare : Template → Template :=
  Template.revised .stripping

section Related

variable {α β γ : Type} {related : α → β → Prop} {first : List α}
    {second : List β}

/-- Related lists have related entries at each index. -/
theorem forall₂_getElem?
    (all : List.Forall₂ related first second)
    (index : Nat) :
    Option.Rel related first[index]? second[index]? := by
  induction all generalizing index with
  | nil => exact .none
  | cons head _ inner =>
      cases index with
      | zero => exact .some head
      | succ index => exact inner index

/-- Related options are both empty or hold related values. -/
theorem rel_cases {value : Option α} {other : Option β}
    (rel : Option.Rel related value other) :
    (value = none ∧ other = none) ∨
      ∃ held partner, value = some held ∧ other = some partner ∧
        related held partner := by
  cases rel with
  | none => exact .inl ⟨rfl, rfl⟩
  | some pair => exact .inr ⟨_, _, rfl, rfl, pair⟩

theorem map_eq_map_of_forall₂ {change : α → γ}
    {other : β → γ}
    (all : List.Forall₂ related first second)
    (agree : ∀ entry partner, related entry partner →
      other partner = change entry) :
    second.map other = first.map change := by
  induction all with
  | nil => rfl
  | cons head _ inner =>
      rw [List.map_cons, List.map_cons, agree _ _ head, inner]

end Related

theorem Template.Twin.bare_eq {first second : Template}
    (twin : first.Twin second) :
    second.bare = first.bare := by
  induction twin with
  | same => rfl
  | @written items first second alike code constants functions inner =>
      have constantsEq :
          second.constants.map Value.bare = first.constants.map Value.bare := by
        apply List.ext_getElem?
        intro index
        rw [List.getElem?_map, List.getElem?_map]
        rcases rel_cases (forall₂_getElem? constants index) with
          ⟨held, there⟩ | ⟨value, other, held, there, same⟩
        · rw [held, there]
        · rw [held, there]
          rcases same with ⟨_, rfl⟩ | ⟨identity, body, another, rfl, rfl⟩
          · rfl
          · simp only [Option.map_some, Value.revised,
              inner index identity identity body another held there]
      simp only [Template.revised_eq, Revision.stripping, alike.name,
        alike.arity, alike.locals, alike.names, alike.slotNames, alike.comments,
        alike.capturesOuter, alike.capturesInner, alike.heapSlots]
      exact congrArg (Template.mk _ _ _ _ · _ _ _ _ _) constantsEq

/-- Twins have one bare form. -/
theorem Value.Twin.bare_eq {first second : Value} (twin : first.Twin second) :
    second.bare = first.bare := by
  induction twin with
  | list identities values inner =>
      have all := forall₂_iff_getElem?.2 ⟨identities, inner⟩
      simp only [Value.revised, nodesRevised_eq_map]
      refine congrArg Value.list (map_eq_map_of_forall₂ all ?_)
      rintro node other ⟨identity, bareEq⟩
      rw [Node.revised, identity]
      exact congrArg (Node.mk node.identity) bareEq
  | map identity keys values inner =>
      have all := forall₂_iff_getElem?.2 ⟨keys, inner⟩
      simp only [Value.revised, entriesRevised_eq_map]
      refine congrArg (Value.map identity) (map_eq_map_of_forall₂ all ?_)
      rintro entry other ⟨key, bareEq⟩
      rw [key]
      exact congrArg (Prod.mk entry.1) bareEq
  | function identity templates => simp only [Value.revised, templates.bare_eq]
  | closure identity boxes templates =>
      simp only [Value.revised, Closure.revised, templates.bare_eq]
  | _ => rfl

/-! ## What can be seen of a value -/

namespace Value.Twin

variable {left other right another : Value}

theorem typeName_eq (twin : left.Twin other) :
    other.typeName = left.typeName := by
  cases twin <;> rfl

theorem isTruthy_eq (twin : left.Twin other) :
    other.isTruthy = left.isTruthy := by
  cases twin <;> rfl

theorem isScalar_eq (twin : left.Twin other) :
    other.isScalar = left.isScalar := by
  cases twin <;> rfl

theorem isMethod_eq (twin : left.Twin other) :
    Native.isMethod other = Native.isMethod left := by
  cases twin <;> rfl

theorem displayWith_eq (twin : left.Twin other) (boxText : Nat → String) :
    other.displayWith boxText = left.displayWith boxText :=
  calc other.displayWith boxText
    _ = other.bare.displayWith boxText := by rw [Value.displayWith_revised]
    _ = left.bare.displayWith boxText := by rw [twin.bare_eq]
    _ = left.displayWith boxText := by rw [Value.displayWith_revised]

theorem reprWith_eq (twin : left.Twin other) (boxText : Nat → String) :
    other.reprWith boxText = left.reprWith boxText := by
  have same := twin.displayWith_eq boxText
  cases twin <;> first | rfl | exact same

theorem eq_eq (twin : left.Twin other) (twins : right.Twin another) :
    other.eq another = left.eq right :=
  calc other.eq another
    _ = other.bare.eq another.bare := by rw [Value.eq_revised]
    _ = left.bare.eq right.bare := by rw [twin.bare_eq, twins.bare_eq]
    _ = left.eq right := by rw [Value.eq_revised]

theorem same_eq (twin : left.Twin other) (twins : right.Twin another) :
    other.same another = left.same right :=
  calc other.same another
    _ = other.bare.same another.bare := by rw [Value.same_revised]
    _ = left.bare.same right.bare := by rw [twin.bare_eq, twins.bare_eq]
    _ = left.same right := by rw [Value.same_revised]

end Value.Twin

/-! ## Containers -/

section Containers

variable {values others : List Value} {nodes partners : List (Node Value)}

theorem Chain.prepend_twin
    (unused : Nat)
    (new : List.Forall₂ Value.Twin values others)
    (old : List.Forall₂ Node.Twin nodes partners) :
    List.Forall₂ Node.Twin (Chain.prepend unused values nodes)
      (Chain.prepend unused others partners) := by
  induction new generalizing unused with
  | nil => exact old
  | cons head tail inner =>
      have shifted := inner (unused + 1)
      simp only [Chain.prepend, List.mapIdx_cons, List.cons_append,
        Nat.add_zero] at shifted ⊢
      refine .cons ⟨rfl, head⟩ ?_
      simpa only [Nat.add_comm, Nat.add_left_comm] using shifted

theorem Chain.values_twin (all : List.Forall₂ Node.Twin nodes partners) :
    List.Forall₂ Value.Twin (Chain.values nodes) (Chain.values partners) :=
  List.forall₂_map_left_iff.2
    (List.forall₂_map_right_iff.2 (all.imp fun _ _ twins => twins.2))

variable {κ : Type} [DecidableEq κ] {entries rest : List (κ × Value)}
    {value other : Value}

theorem Dictionary.find?_twin
    (all : List.Forall₂ EntryTwin entries rest)
    (key : κ) :
    Option.Rel Value.Twin (Dictionary.find? entries key)
      (Dictionary.find? rest key) := by
  induction all with
  | nil => exact .none
  | @cons entry partner _ _ head _ inner =>
      obtain ⟨name, held⟩ := entry
      obtain ⟨another, there⟩ := partner
      obtain ⟨rfl, twins⟩ := head
      simp only [Dictionary.find?]
      split
      · exact .some twins
      · exact inner

theorem Dictionary.insert_twin [LT κ] [DecidableLT κ]
    (all : List.Forall₂ EntryTwin entries rest)
    (key : κ) (twin : value.Twin other) :
    List.Forall₂ EntryTwin (Dictionary.insert entries key value)
      (Dictionary.insert rest key other) := by
  induction all with
  | nil => exact .cons ⟨rfl, twin⟩ .nil
  | @cons entry partner _ _ head tail inner =>
      obtain ⟨name, held⟩ := entry
      obtain ⟨another, there⟩ := partner
      obtain ⟨rfl, twins⟩ := head
      simp only [Dictionary.insert]
      split
      · exact .cons ⟨rfl, twin⟩ tail
      · split
        · exact .cons ⟨rfl, twin⟩ (.cons ⟨rfl, twins⟩ tail)
        · exact .cons ⟨rfl, twins⟩ inner

theorem Dictionary.ofEntries_twin [LT κ] [DecidableLT κ]
    (all : List.Forall₂ EntryTwin entries rest) :
    List.Forall₂ EntryTwin (Dictionary.ofEntries entries)
      (Dictionary.ofEntries rest) := by
  have grown : ∀ {held there : Dictionary κ Value},
      List.Forall₂ EntryTwin held there →
      List.Forall₂ EntryTwin
        (entries.foldl (fun dictionary entry =>
          Dictionary.insert dictionary entry.1 entry.2) held)
        (rest.foldl (fun dictionary entry =>
          Dictionary.insert dictionary entry.1 entry.2) there) := by
    induction all with
    | nil => exact fun twins => twins
    | @cons entry partner _ _ head _ inner =>
        intro held there twins
        obtain ⟨key, value⟩ := entry
        obtain ⟨another, other⟩ := partner
        obtain ⟨rfl, twin⟩ := head
        exact inner (Dictionary.insert_twin twins _ twin)
  exact grown .nil

theorem MethodTable.find?_twin {methods table : MethodTable}
    (all : List.Forall₂ EntryTwin methods table)
    (typeName : String) (operator : Operator) :
    Option.Rel Value.Twin (methods.find? typeName operator)
      (table.find? typeName operator) := by
  induction all with
  | nil => exact .none
  | @cons entry partner _ _ head _ inner =>
      obtain ⟨key, held⟩ := entry
      obtain ⟨another, there⟩ := partner
      obtain ⟨rfl, twins⟩ := head
      simp only [MethodTable.find?, List.lookup_cons] at inner ⊢
      split
      · exact .some twins
      · exact inner

theorem MethodTable.define_twin
    {methods table : MethodTable}
    (all : List.Forall₂ EntryTwin methods table)
    (typeName : String) (operator : Operator) (twin : value.Twin other) :
    List.Forall₂ EntryTwin (methods.define typeName operator value)
      (table.define typeName operator other) := by
  refine .cons ⟨rfl, twin⟩ ?_
  induction all with
  | nil => exact .nil
  | @cons entry partner _ _ head _ inner =>
      obtain ⟨key, held⟩ := entry
      obtain ⟨another, there⟩ := partner
      obtain ⟨rfl, twins⟩ := head
      simp only [List.filter_cons]
      split
      · exact .cons ⟨rfl, twins⟩ inner
      · exact inner

end Containers

/-! ## Operators -/

namespace Operator

variable {left other right another : Value} (operator : Operator)

/-- Operators cover twins by the same rules and give twins. -/
theorem binary_twin
    (unused : Nat) (twin : left.Twin other)
    (twins : right.Twin another) :
    Option.Rel (Outcome.Agree Value.Twin) (operator.binary unused left right)
      (operator.binary unused other another) := by
  have rule (result : Option (Except Exception Value)) :
      Option.Rel (Outcome.Agree Value.Twin) result result := by
    cases result with
    | none => exact .none
    | some outcome =>
        cases outcome with
        | ok value => exact .some (.ok (.refl value))
        | error exception => exact .some (.error exception)
  by_cases equality : operator = .eq
  · simp only [Operator.binary, equality, if_true, twin.isScalar_eq,
      twins.isScalar_eq, twin.eq_eq twins]
    exact rule _
  · simp only [Operator.binary, equality, if_false]
    cases twin with
    | int first => cases twins <;> exact rule _
    | str first => cases twins <;> exact rule _
    | list identities values =>
        have firsts := forall₂_iff_getElem?.2 ⟨identities, values⟩
        cases twins with
        | list identities values =>
            have seconds := forall₂_iff_getElem?.2 ⟨identities, values⟩
            simp only
            split
            · exact .some (.ok (Value.Twin.list_iff.2
                ⟨_, rfl, Chain.prepend_twin unused
                  (Chain.values_twin firsts) seconds⟩))
            · exact .none
        | _ => exact .none
    | _ => exact .none

theorem identitiesTaken_eq
    (twin : left.Twin other)
    (twins : right.Twin another) :
    operator.identitiesTaken other another =
      operator.identitiesTaken left right := by
  cases operator with
  | add =>
      cases twin with
      | list identities values =>
          have lengths := congrArg List.length identities
          rw [List.length_map, List.length_map] at lengths
          cases twins <;> first | exact lengths | rfl
      | _ => rfl
  | _ => rfl

theorem unary_eq (twin : left.Twin other) :
    operator.unary other = operator.unary left := by
  cases operator <;> cases twin <;> rfl

theorem fallback_eq (twin : left.Twin other) (twins : right.Twin another) :
    operator.fallback other (some another) =
      operator.fallback left (some right) := by
  simp only [Operator.fallback, twin.same_eq twins, twin.typeName_eq,
    twins.typeName_eq]

theorem fallback_none_eq (twin : left.Twin other) :
    operator.fallback other none = operator.fallback left none := by
  simp only [Operator.fallback, twin.typeName_eq]

end Operator

/-! ## Native functions -/

section Natives

open Outcome

variable {left other right another : Value}

theorem Value.asText_eq (twin : left.Twin other) (function : String) :
    other.asText function = left.asText function := by
  cases twin <;> rfl

theorem Value.asList_twin (twin : left.Twin other) (function : String) :
    Agree (List.Forall₂ Node.Twin) (left.asList function)
      (other.asList function) := by
  cases twin with
  | list identities values =>
      exact .ok (forall₂_iff_getElem?.2 ⟨identities, values⟩)
  | _ => exact .error _

theorem Value.asMap_twin (twin : left.Twin other) (function : String) :
    Agree (List.Forall₂ EntryTwin) (left.asMap function)
      (other.asMap function) := by
  cases twin with
  | map _ keys values => exact .ok (forall₂_iff_getElem?.2 ⟨keys, values⟩)
  | _ => exact .error _

namespace Native

theorem len_eq (twin : left.Twin other) :
    Native.len other = Native.len left := by
  cases twin with
  | list identities values =>
      have lengths := congrArg List.length identities
      rw [List.length_map, List.length_map] at lengths
      simp only [Native.len, lengths]
  | map _ keys values =>
      have lengths := congrArg List.length keys
      rw [List.length_map, List.length_map] at lengths
      simp only [Native.len, lengths]
  | _ => rfl

theorem nth_twin (twin : left.Twin other) (twins : right.Twin another) :
    Agree Value.Twin (Native.nth left right) (Native.nth other another) := by
  refine (Value.asList_twin twin "nth").bind ?_
  intro nodes partners all
  cases twins with
  | int number =>
      have found : Option.Rel Value.Twin
          (if number.toInt < 0 then none else
            Chain.nth? nodes number.toInt.toNat)
          (if number.toInt < 0 then none else
            Chain.nth? partners number.toInt.toNat) := by
        split
        · exact .none
        · simp only [Chain.nth?]
          rcases rel_cases (forall₂_getElem? all number.toInt.toNat) with
            ⟨held, there⟩ | ⟨node, partner, held, there, twins⟩
          · rw [held, there]
            exact .none
          · rw [held, there]
            exact .some twins.2
      simp only [← all.length_eq]
      rcases rel_cases found
        with ⟨held, there⟩ | ⟨value, partner, held, there, twins⟩
      · rw [held, there]
        exact .error _
      · rw [held, there]
        exact .ok twins
  | _ => exact .error _

theorem head_twin (twin : left.Twin other) :
    Agree Value.Twin (Native.head left) (Native.head other) := by
  refine (Value.asList_twin twin "head").bind ?_
  intro nodes partners all
  cases all with
  | nil => exact .error _
  | cons head _ => exact .ok head.2

theorem tail_twin (twin : left.Twin other) :
    Agree Value.Twin (Native.tail left) (Native.tail other) := by
  refine (Value.asList_twin twin "tail").bind ?_
  intro nodes partners all
  cases all with
  | nil => exact .error _
  | cons _ tail => exact .ok (Value.Twin.list_iff.2 ⟨_, rfl, tail⟩)

theorem pairs_twin {values others : List Value}
    (all : List.Forall₂ Value.Twin values others) :
    Agree (List.Forall₂ EntryTwin) (Native.pairs values)
      (Native.pairs others) := by
  induction values using Native.pairs.induct generalizing others with
  | case1 key value rest ih =>
      obtain _ | ⟨keys, _ | ⟨twins, all⟩⟩ := all
      simp only [Native.pairs, Value.asText_eq keys]
      cases key.asText "map" with
      | error exception => exact .error _
      | ok text =>
          refine (ih all).bind ?_
          intro entries partners entriesTwin
          exact .ok (.cons ⟨rfl, twins⟩ entriesTwin)
  | case2 values few =>
      cases all with
      | nil => exact .ok .nil
      | cons twins others =>
          cases others with
          | nil => exact .ok .nil
          | cons _ _ => exact (few _ _ _ rfl).elim

theorem exceptionKind_eq (twin : left.Twin other) :
    Native.exceptionKind other = Native.exceptionKind left := by
  simp only [Native.exceptionKind, Value.asText_eq twin]

theorem raised_eq (twin : left.Twin other) :
    Native.raised other = Native.raised left := by
  cases twin <;> rfl

end Native

end Natives

end EffectScript
