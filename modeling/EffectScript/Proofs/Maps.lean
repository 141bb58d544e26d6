import EffectScript.Proofs.Coherence
import EffectScript.Proofs.Entries

/-!
# Maps as stores

The native functions `map`, `put`, `get` and `len` treat a map as a store of
values under texts. What is got from a map is what was put in last; apart from
that nothing can be told about the way in which a map was built, neither by
equality nor from its display form.

All of this rests on the order of the entries. Native functions keep them in
strictly ascending order of their keys, and nothing else in a machine makes
maps, so the entries of every map are in order.
-/

namespace EffectScript

namespace Value

/-- The keys of a map, in order. -/
def keys : Value → List String
  | .map _ entries => Dictionary.keys entries
  | _ => []

/-- A map with its entries in strictly ascending order of their keys. -/
def IsTable (value : Value) : Prop :=
  ∃ identity entries, value = .map identity entries ∧
    Dictionary.Ascending entries

/-- Maps have their entries in strictly ascending order, however deep they are
in a value. -/
inductive Ordered : Value → Prop
  | list {nodes : List (Node Value)}
      (elements : ∀ node ∈ nodes, Ordered node.value) : Ordered (.list nodes)
  | map {identity : Nat} {entries : List (String × Value)}
      (ascending : Dictionary.Ascending entries)
      (values : ∀ entry ∈ entries, Ordered entry.2) :
        Ordered (.map identity entries)
  | simple {value : Value} (simple : value.hasParts = false) : Ordered value

theorem Ordered.kept : Value.Kept Ordered where
  nil := .simple rfl
  bool _ := .simple rfl
  int _ := .simple rfl
  str _ := .simple rfl
  list := by
    refine ⟨fun ordered => ?_, .list⟩
    cases ordered with
    | list elements => exact elements
    | simple simple => cases simple
  entries := by
    intro identity entries ordered
    cases ordered with
    | map _ values => exact values
    | simple simple => cases simple
  ofEntries have_ := .map (Dictionary.ascending_ofEntries _) fun entry member =>
    have_ entry (Dictionary.mem_ofEntries member)
  insert := by
    intro identity other entries key value ordered has
    cases ordered with
    | map ascending values =>
        refine .map (ascending.insert key value) fun entry member => ?_
        rcases Dictionary.mem_insert member with rfl | old
        · exact has
        · exact values entry old
    | simple simple => cases simple
  exception _ _ := .simple rfl
  builtin _ := .simple rfl

/-- Two kept properties are kept together. -/
theorem Kept.and {property another : Value → Prop}
    (kept : Value.Kept property)
    (alsoKept : Value.Kept another) :
    Value.Kept fun value => property value ∧ another value where
  nil := ⟨kept.nil, alsoKept.nil⟩
  bool truth := ⟨kept.bool truth, alsoKept.bool truth⟩
  int number := ⟨kept.int number, alsoKept.int number⟩
  str text := ⟨kept.str text, alsoKept.str text⟩
  list := by
    intro nodes
    rw [kept.list, alsoKept.list]
    exact forall₂_and.symm
  entries has entry member :=
    ⟨kept.entries has.1 entry member, alsoKept.entries has.2 entry member⟩
  ofEntries have_ := ⟨kept.ofEntries fun entry member => (have_ entry member).1,
    alsoKept.ofEntries fun entry member => (have_ entry member).2⟩
  insert table has := ⟨kept.insert table.1 has.1, alsoKept.insert table.2 has.2⟩
  exception identity raised :=
    ⟨kept.exception identity raised, alsoKept.exception identity raised⟩
  builtin native := ⟨kept.builtin native, alsoKept.builtin native⟩

theorem entriesEq_self (entries : List (String × Value)) :
    entriesEq entries entries = true :=
  entriesEq_iff.2 ⟨rfl, fun pair member => eq_of_mem_zip_self member ▸
    eq_self pair.1.2⟩

/-- Maps with the same entries are equal. -/
theorem eq_of_entries (identity other : Nat) (entries : List (String × Value)) :
    (Value.map identity entries).eq (.map other entries) = true := by
  rw [eq_map, entriesEq_self, Bool.or_true]

/-- Maps with the same entries have the same display form. -/
theorem display_of_entries
    (identity other : Nat)
    (entries : List (String × Value))
    (store : Store) :
    (Value.map identity entries).display store =
      (Value.map other entries).display store := rfl

end Value

namespace Machine

/-! ## Native functions for maps -/

/-- Calling `put` gives the stored map. Nothing of the machine changes but its
supply of identities. -/
def Puts
    (machine : Machine) (table : Value) (key : String)
    (value stored : Value) : Prop :=
  Builtin.put.call machine [table, .str key, value] =
    .ok (stored, machine.take 1)

/-- Calling `get` gives the value that is found. Nothing of the machine
changes. -/
def Gets (machine : Machine) (table : Value) (key : String) (found : Value) :
    Prop :=
  Builtin.get.call machine [table, .str key] = .ok (found, machine)

/-- Calling `len` gives the count. Nothing of the machine changes. -/
def Counts (machine : Machine) (table : Value) (count : Int64) : Prop :=
  Builtin.len.call machine [table] = .ok (.int count, machine)

/-- Putting pairs of a key and a value into a map, one after the other. -/
def putAll (machine : Machine) (table : Value) (pairs : List (String × Value)) :
    Except Exception (Value × Machine) :=
  pairs.foldlM
    (fun held pair => Builtin.put.call held.2 [held.1, .str pair.1, pair.2])
      (table, machine)

variable {machine : Machine} {identity : Nat} {entries : List (String × Value)}
    {key : String} {value stored found : Value} {count : Int64}

theorem puts_map : machine.Puts (.map identity entries) key value stored ↔
    stored =
      .map machine.store.unused (Dictionary.insert entries key value) := by
  constructor
  · rintro ⟨⟩
    rfl
  · rintro rfl
    rfl

theorem gets_map : machine.Gets (.map identity entries) key found ↔
    found = (Dictionary.find? entries key).getD .nil := by
  constructor
  · rintro ⟨⟩
    rfl
  · rintro rfl
    rfl

theorem counts_map : machine.Counts (.map identity entries) count ↔
    count = Int64.ofNat entries.length := by
  constructor
  · rintro ⟨⟩
    rfl
  · rintro rfl
    rfl

theorem take_take (machine : Machine) (first second : Nat) :
    (machine.take first).take second = machine.take (first + second) := by
  simp only [take, Store.take, Nat.add_assoc]

/-- Display forms do not show the supply of identities. -/
theorem display_take (value : Value) (machine : Machine) (taken : Nat) :
    value.display (machine.take taken).store = value.display machine.store := by
  have boxes (depth : Nat) :
      (machine.take taken).store.boxDisplay depth =
        machine.store.boxDisplay depth := by
    induction depth with
    | zero => rfl
    | succ depth inner =>
        funext cell
        rw [Store.boxDisplay, Store.boxDisplay, inner]
        rfl
  unfold Value.display
  rw [boxes]
  rfl

/-- Putting pairs into a map inserts them one after the other. -/
theorem putAll_map
    (machine : Machine) (identity : Nat)
    (entries : Dictionary String Value)
    (pairs : List (String × Value)) :
    ∃ last, machine.putAll (.map identity entries) pairs =
      .ok (.map last (entries.insertAll pairs), machine.take pairs.length) := by
  induction pairs generalizing machine identity entries with
  | nil => exact ⟨identity, rfl⟩
  | cons pair rest inner =>
      obtain ⟨last, putRest⟩ :=
        inner (machine.take 1) machine.store.unused
          (entries.insert pair.1 pair.2)
      rw [take_take, Nat.add_comm] at putRest
      exact ⟨last, putRest⟩

/-- The pairs that alternating keys and values make. -/
theorem pairs_of_alternating (pairs : List (String × Value)) :
    Native.pairs (pairs.flatMap fun pair => [.str pair.1, pair.2]) =
      .ok pairs := by
  induction pairs with
  | nil => rfl
  | cons pair rest inner =>
      rw [List.flatMap_cons]
      exact congrArg
          (fun result : Except Exception (List (String × Value)) => do
        let others ← result
        return pair :: others) inner

/-- Calling `map` makes a map of alternating keys and values. -/
theorem map_call (machine : Machine) (pairs : List (String × Value)) :
    Builtin.map.call machine (pairs.flatMap fun pair => [.str pair.1, pair.2]) =
      .ok (.map machine.store.unused (Dictionary.ofEntries pairs),
        machine.take 1) := by
  have even :
      (pairs.flatMap fun pair => [Value.str pair.1, pair.2]).length % 2 =
        0 := by
    simp [List.length_flatMap]
  have accepted : Builtin.map.checkArity
      (pairs.flatMap fun pair => [Value.str pair.1, pair.2]).length =
      .ok () := by
    simp [Builtin.checkArity, Builtin.arity, Arity.accepts]
  unfold Builtin.call
  rw [accepted, Outcome.ok_bind]
  unfold Builtin.invoke
  simp only [even, if_true, pairs_of_alternating]
  rfl

end Machine

/-! ## Laws -/

/-- What native functions do with a map, whichever machine calls them: `put`
makes a map in which the value is found under the key, and everything else as
before. -/
structure Value.StoreLaws (table : Value) : Prop where
  put (machine : Machine) (key : String) (value : Value) :
    ∃ stored, machine.Puts table key value stored ∧ stored.IsTable ∧
      ∀ other, other ∈ stored.keys ↔ other = key ∨ other ∈ table.keys
  get (machine : Machine) (key : String) : ∃ found, machine.Gets table key found
  get_put {machine : Machine} {key : String} {value stored : Value} :
    machine.Puts table key value stored →
    ∀ later : Machine, later.Gets stored key value
  get_put_of_ne {machine : Machine} {key other : String}
    {value stored : Value} :
    machine.Puts table key value stored → other ≠ key →
    ∀ (before later : Machine) (found : Value), later.Gets stored other found ↔
      before.Gets table other found
  /-- The second of two values under one key takes the place of the first
  one. -/
  put_put {machine later other : Machine} {key : String}
    {value changed stored twice once : Value} :
    machine.Puts table key value stored → later.Puts stored key changed twice →
    other.Puts table key changed once →
    twice.eq once = true ∧ ∀ store, twice.display store = once.display store
  /-- Values under different keys can be put in in any order. -/
  put_comm {machine later another last : Machine} {key other : String}
      {value held keyFirst otherFirst keyThenOther otherThenKey : Value} :
    key ≠ other → machine.Puts table key value keyFirst →
    later.Puts keyFirst other held keyThenOther →
    another.Puts table other held otherFirst →
    last.Puts otherFirst key value otherThenKey →
    keyThenOther.eq otherThenKey = true ∧
      ∀ store, keyThenOther.display store = otherThenKey.display store
  /-- A map grows by one with a key that is new, and it stays as large with one
  that is not. -/
  len {machine : Machine} {key : String} {value stored : Value} :
      machine.Puts table key value stored →
    ∀ before later : Machine, ∃ count grown, before.Counts table count ∧
      later.Counts stored grown ∧
      (grown = count + 1 ↔ key ∉ table.keys) ∧
      (grown = count ↔ key ∈ table.keys)
  /-- The map itself is as it was. -/
  unchanged {machine after : Machine} {key : String} {value stored : Value} :
    Builtin.put.call machine [table, .str key, value] = .ok (stored, after) →
    (∀ other found, after.Gets table other found ↔
      machine.Gets table other found) ∧
    (∀ count, after.Counts table count ↔ machine.Counts table count) ∧
    table.display after.store = table.display machine.store

namespace Machine

theorem storeLaws_of_isTable {table : Value} (isTable : table.IsTable) :
    table.StoreLaws := by
  obtain ⟨identity, entries, rfl, ascending⟩ := isTable
  constructor
  case put =>
    intro machine key value
    exact ⟨_, puts_map.2 rfl, ⟨_, _, rfl, ascending.insert key value⟩, fun _ =>
      Dictionary.mem_keys_insert⟩
  case get =>
    intro machine key
    exact ⟨_, gets_map.2 rfl⟩
  case get_put =>
    intro machine key value stored puts later
    cases puts_map.1 puts
    rw [gets_map, Dictionary.find?_insert_self]
    rfl
  case get_put_of_ne =>
    intro machine key other value stored puts different before later found
    cases puts_map.1 puts
    rw [gets_map, gets_map, Dictionary.find?_insert_of_ne _ _ different]
  case put_put =>
    intro machine later other key value changed stored twice once first
      second alone
    cases puts_map.1 first
    cases puts_map.1 second
    cases puts_map.1 alone
    rw [ascending.insert_insert_self]
    exact ⟨Value.eq_of_entries _ _ _, Value.display_of_entries _ _ _⟩
  case put_comm =>
    intro machine later another last key other value held keyFirst otherFirst
      keyThenOther otherThenKey different first second third fourth
    cases puts_map.1 first
    cases puts_map.1 second
    cases puts_map.1 third
    cases puts_map.1 fourth
    rw [ascending.insert_comm different]
    exact ⟨Value.eq_of_entries _ _ _, Value.display_of_entries _ _ _⟩
  case len =>
    intro machine key value stored puts before later
    cases puts_map.1 puts
    refine ⟨_, _, counts_map.2 rfl, counts_map.2 rfl, ?_⟩
    have larger (size : Nat) : Int64.ofNat (size + 1) = Int64.ofNat size + 1 :=
      Int64.ofNat_add size 1
    rw [ascending.length_insert]
    by_cases present : key ∈ Dictionary.keys entries
    · rw [if_pos present]
      simp [Value.keys, present]
    · rw [if_neg present, larger]
      simp [Value.keys, present]
  case unchanged =>
    rintro machine after key value stored ⟨⟩
    exact ⟨fun _ _ => gets_map.trans gets_map.symm, fun _ =>
      counts_map.trans counts_map.symm,
      display_take _ machine 1⟩

/-- Entries are compared one by one. -/
theorem entriesEq_iff_forall₂ {left right : List (String × Value)} :
    entriesEq left right = true ↔
      List.Forall₂ (fun entry another => entry.1 = another.1 ∧
        entry.2.eq another.2 = true) left right := by
  induction left generalizing right with
  | nil => cases right <;> simp [entriesEq]
  | cons entry entries inner =>
      cases right with
      | nil => simp [entriesEq]
      | cons another others =>
          rw [entriesEq, Bool.and_eq_true, inner, entryEq,
            Bool.and_eq_true, beq_iff_eq, List.forall₂_cons]

section Found

variable {α : Type} {related : α → α → Prop} {found another : Option α}

theorem isSome_eq_of_rel (alike : Option.Rel related found another) :
    found.isSome = another.isSome := by
  cases alike <;> rfl

theorem getD_of_rel {default : α}
    (alike : Option.Rel related found another)
    (defaults : related default default) :
    related (found.getD default) (another.getD default) := by
  cases alike with
  | none => exact defaults
  | some alike => exact alike

end Found

/-- In a memory, maps are equal if and only if they have the same keys with
equal values. -/
theorem eq_iff_same_gets
    (machine : Machine)
    {memory : Memory} {left right : Value}
    (leftHeld : memory.holds left)
    (rightHeld : memory.holds right)
    (leftIsTable : left.IsTable)
    (rightIsTable : right.IsTable) :
    left.eq right = true ↔ (∀ key, key ∈ left.keys ↔ key ∈ right.keys) ∧
      ∀ key ∈ left.keys, ∃ found another, machine.Gets left key found ∧
        machine.Gets right key another ∧
        found.eq another = true := by
  obtain ⟨identity, entries, rfl, ascending⟩ := leftIsTable
  obtain ⟨otherIdentity, others, rfl, othersAscending⟩ := rightIsTable
  -- Two maps with one identity are one map, so the early stop does not matter.
  have compared : (Value.map identity entries).eq
      (.map otherIdentity others) = true ↔
      entriesEq entries others = true := by
    rw [Value.eq_map, Bool.or_eq_true, or_iff_right_iff_imp, beq_iff_eq]
    rintro rfl
    rw [memory.oneMap leftHeld rightHeld]
    exact Value.entriesEq_self others
  rw [compared, entriesEq_iff_forall₂]
  constructor
  · intro pairs
    have agree (key : String) :
        Option.Rel (fun found another : Value => found.eq another = true)
        (Dictionary.find? entries key) (Dictionary.find? others key) :=
      Dictionary.rel_find?_of_forall₂ pairs key
    refine ⟨fun key => ?_, fun key _ =>
      ⟨_, _, gets_map.2 rfl, gets_map.2 rfl, ?_⟩⟩
    · rw [Value.keys, Value.keys, ← Dictionary.find?_isSome_iff,
        ← Dictionary.find?_isSome_iff, isSome_eq_of_rel (agree key)]
    · exact getD_of_rel (agree key) rfl
  · rintro ⟨sameKeys, equal⟩
    refine Dictionary.Ascending.forall₂_of_find? ascending othersAscending
        fun key =>
      (?_ :
        Option.Rel (fun found another : Value => found.eq another = true) _ _)
    by_cases member : key ∈ Dictionary.keys entries
    · obtain ⟨value, present⟩ :=
        Option.isSome_iff_exists.1 (Dictionary.find?_isSome_iff.2 member)
      obtain ⟨another, presentToo⟩ := Option.isSome_iff_exists.1
        (Dictionary.find?_isSome_iff.2 ((sameKeys key).1 member))
      obtain ⟨_, _, gets, getsToo, alike⟩ := equal key member
      rw [gets_map.1 gets, gets_map.1 getsToo, present, presentToo] at alike
      rw [present, presentToo]
      exact .some alike
    · rw [Dictionary.find?_eq_none_iff.2 member,
        Dictionary.find?_eq_none_iff.2 fun memberToo =>
          member ((sameKeys key).2 memberToo)]
      exact .none

/-- A map made at once holds what a map holds that is made by putting in the
pairs one after the other. -/
theorem map_eq_putAll (machine : Machine) (pairs : List (String × Value)) :
    ∃ made empty folded,
      Builtin.map.call machine
        (pairs.flatMap fun pair => [.str pair.1, pair.2]) =
          .ok (made, machine.take 1) ∧
      Builtin.map.call machine [] = .ok (empty, machine.take 1) ∧
      (machine.take 1).putAll empty pairs =
        .ok (folded, machine.take (1 + pairs.length)) ∧
      made.eq folded = true ∧
      (∀ store, made.display store = folded.display store) ∧
      made.IsTable ∧ folded.IsTable ∧ empty.IsTable ∧ empty.keys = [] ∧
      ∀ table, table = made ∨ table = folded →
        (∀ key, key ∈ table.keys ↔ key ∈ pairs.map (·.1)) ∧
        ∀ (later : Machine) key,
          later.Gets table key ((pairs.reverse.lookup key).getD .nil) := by
  obtain ⟨last, folds⟩ :=
    (machine.take 1).putAll_map machine.store.unused [] pairs
  rw [take_take] at folds
  have isTable (identity : Nat) :
      (Value.map identity (Dictionary.ofEntries pairs)).IsTable :=
    ⟨_, _, rfl, Dictionary.ascending_ofEntries pairs⟩
  refine ⟨_, _, _, machine.map_call pairs, rfl, folds,
    Value.eq_of_entries _ _ _, Value.display_of_entries _ _ _, isTable _,
    isTable _, ⟨_, _, rfl, List.Pairwise.nil⟩, rfl, ?_⟩
  have holds (identity : Nat) :
      (∀ key, key ∈ (Value.map identity (Dictionary.ofEntries pairs)).keys ↔
        key ∈ pairs.map (·.1)) ∧
      ∀ (later : Machine) key,
        later.Gets (.map identity (Dictionary.ofEntries pairs)) key
        ((pairs.reverse.lookup key).getD .nil) := by
    refine ⟨fun key => Dictionary.mem_keys_ofEntries pairs, fun later key => ?_⟩
    rw [gets_map, Dictionary.find?_ofEntries]
  rintro table (rfl | rfl)
  · exact holds _
  · exact holds _

/-! ## Maps in a session -/

/-- The functions of some texts have no maps in their constants. -/
theorem inherited_ordered (sources : List String) :
    Value.Inherited fun value => value.CallsOnly (ComesFrom sources) ∧
      value.Ordered where
  toKept := (inherited_comesFrom sources).toKept.and Value.Ordered.kept
  box cell := ⟨.box cell, .simple rfl⟩
  constant := by
    intro closure value has member
    refine ⟨(inherited_comesFrom sources).constant has.1 member, ?_⟩
    cases has.1 with
    | closure comes => exact .simple (comes.constants_simple value member)
  closes has := ⟨(inherited_comesFrom sources).closes has.1, .simple rfl⟩

namespace SessionOf

variable {limits : Limits} {outlet : Outlet} {sources : List String}

/-- All maps of a machine are in order, at any time in any session. -/
theorem ordered (session : SessionOf limits outlet sources machine) :
    machine.Everywhere Value.Ordered ∧
    ∀ source file script start count later,
      compileSource source file = .ok script →
      machine.load script = .running start → start.reached count = some later →
      later.Everywhere Value.Ordered := by
  have known (sources identity template) (comes : ComesFrom sources template) :
      (Value.function identity template).CallsOnly (ComesFrom sources) ∧
        (Value.function identity template).Ordered :=
    ⟨.function comes, .simple rfl⟩
  have grows (sources source value)
      (has : Value.CallsOnly (ComesFrom sources) value ∧ value.Ordered) :
      value.CallsOnly (ComesFrom (source :: sources)) ∧ value.Ordered :=
    has.imp_left (Value.CallsOnly.comesFrom_cons sources source value)
  refine ⟨(session.everywhere_of inherited_ordered known grows).mono fun _ =>
    And.right, ?_⟩
  intro source file script start count later compiled loads reaches
  exact (session.everywhere_of_reached inherited_ordered known grows compiled
    loads reaches).mono
    fun _ => And.right

end SessionOf

/-- Maps obey the laws of a store: what is got is what was put in last, whatever
else was put in before or behind it. How a map was built shows neither in
equality nor in the display form. This rests on the order of the entries, which
all maps on a machine have. -/
theorem maps_obey_store_laws :
    (∀ table : Value, table.IsTable → table.StoreLaws) ∧
    (∀ (machine : Machine) (pairs : List (String × Value)), ∃ made empty folded,
      Builtin.map.call machine
        (pairs.flatMap fun pair => [.str pair.1, pair.2]) =
          .ok (made, machine.take 1) ∧
      Builtin.map.call machine [] = .ok (empty, machine.take 1) ∧
      (machine.take 1).putAll empty pairs =
        .ok (folded, machine.take (1 + pairs.length)) ∧
      made.eq folded = true ∧
      (∀ store, made.display store = folded.display store) ∧
      made.IsTable ∧ folded.IsTable ∧ empty.IsTable ∧ empty.keys = [] ∧
      ∀ table, table = made ∨ table = folded →
        (∀ key, key ∈ table.keys ↔ key ∈ pairs.map (·.1)) ∧
        ∀ (later : Machine) key,
          later.Gets table key ((pairs.reverse.lookup key).getD .nil)) ∧
    (∀ (machine : Machine) (memory : Memory) (left right : Value),
      memory.holds left → memory.holds right →
      left.IsTable → right.IsTable →
      (left.eq right = true ↔ (∀ key, key ∈ left.keys ↔ key ∈ right.keys) ∧
        ∀ key ∈ left.keys, ∃ found another, machine.Gets left key found ∧
          machine.Gets right key another ∧
          found.eq another = true)) ∧
    ∀ limits outlet sources machine, SessionOf limits outlet sources machine →
      (machine.Everywhere Value.Ordered ∧ ∃ memory : Memory,
        machine.Everywhere memory.holds) ∧
      ∀ source file script start count later,
        compileSource source file = .ok script →
        machine.load script = .running start →
        start.reached count = some later →
        later.Everywhere Value.Ordered ∧
        ∃ memory : Memory, later.Everywhere memory.holds := by
  refine ⟨fun _ => storeLaws_of_isTable, map_eq_putAll,
      fun machine _ _ _ leftHeld rightHeld =>
    eq_iff_same_gets machine leftHeld rightHeld, ?_⟩
  intro limits outlet sources machine session
  obtain ⟨ordered, orderedReached⟩ := session.ordered
  refine ⟨⟨ordered, ?_⟩, fun source file script start count later compiled
      loads reaches =>
    ⟨orderedReached source file script start count later compiled loads
      reaches, ?_⟩⟩
  · obtain ⟨memory, _, everywhere, _⟩ := session.coherent
    exact ⟨memory, everywhere⟩
  · obtain ⟨memory, _, everywhere, _⟩ :=
      session.coherent_reached compiled loads reaches
    exact ⟨memory, everywhere⟩

/-- A value that is put in under a new key comes to stand in front of a later
key. -/
theorem store_laws_of_map_with_later_key :
    ∃ (machine : Machine) (table stored : Value),
      table = .map 0 [("b", .int 1)] ∧
      stored = .map 0 [("a", .int 2), ("b", .int 1)] ∧
      table.IsTable ∧ "b" ≠ "a" ∧
      machine.Puts table "a" (.int 2) stored ∧
      machine.Gets stored "a" (.int 2) ∧
      machine.Gets stored "b" (.int 1) := by
  have isTable : (Value.map 0 [("b", .int 1)]).IsTable :=
    ⟨_, _, rfl, List.pairwise_singleton _ _⟩
  let machine := fresh ⟨1, 1⟩ (.collecting "")
  have puts : machine.Puts (.map 0 [("b", .int 1)]) "a" (.int 2)
      (.map 0 [("a", .int 2), ("b", .int 1)]) := by
    rw [puts_map]
    rfl
  have laws := maps_obey_store_laws.1 _ isTable
  have different : "b" ≠ "a" := by decide
  exact ⟨_, _, _, rfl, rfl, isTable, different, puts, laws.get_put puts _,
    (laws.get_put_of_ne puts different machine _ _).2 rfl⟩

end Machine

end EffectScript
