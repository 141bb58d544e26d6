import EffectScript.Dictionary
import Mathlib.Data.List.Forall2
import Mathlib.Data.Option.Basic
import Mathlib.Tactic.Tauto

/-!
# Entries in ascending order

The entries of a dictionary stand in strictly ascending order of their keys. A
dictionary that is built by insertions is so, and then it is determined by what
is found in it. So whatever is said about insertions is shown by looking the
keys up: the order of insertions under different keys does not matter, and of
several insertions under one key the last one counts.
-/

namespace EffectScript.Dictionary

variable {κ α : Type} {dictionary : Dictionary κ α} {key other : κ} {value : α}

/-- The keys, in order. -/
def keys (dictionary : Dictionary κ α) : List κ :=
  dictionary.map (·.1)

/-- The entries are in strictly ascending order of their keys. -/
def Ascending [LT κ] (dictionary : Dictionary κ α) : Prop :=
  dictionary.Pairwise fun earlier later => earlier.1 < later.1

@[simp]
theorem keys_nil : keys ([] : Dictionary κ α) = [] := rfl

@[simp]
theorem keys_cons (entry : κ × α) (rest : Dictionary κ α) :
    keys (entry :: rest) = entry.1 :: rest.keys := rfl

variable [DecidableEq κ]

/-- Nothing is found under a key exactly when it is not there. -/
theorem find?_eq_none_iff :
    dictionary.find? key = none ↔ key ∉ dictionary.keys := by
  induction dictionary with
  | nil => simp [find?]
  | cons entry rest inner =>
      simp only [find?, keys_cons, List.mem_cons, not_or]
      split
      next same => simp [same]
      next different => simp [different, inner]

theorem find?_isSome_iff :
    (dictionary.find? key).isSome = true ↔ key ∈ dictionary.keys := by
  rw [← not_iff_not, ← find?_eq_none_iff, Option.not_isSome_iff_eq_none]

/-- Entries with the same keys and related values, one by one, are found under
the same keys. -/
theorem rel_find?_of_forall₂ {related : α → α → Prop}
    {left right : Dictionary κ α}
    (pairs : List.Forall₂
      (fun entry another => entry.1 = another.1 ∧ related entry.2 another.2)
        left right)
    (key : κ) :
    Option.Rel related (left.find? key) (right.find? key) := by
  induction pairs with
  | nil => exact .none
  | @cons entry another _ _ alike _ inner =>
      simp only [find?, alike.1]
      split
      · exact .some alike.2
      · exact inner

section Order

variable [LT κ] [DecidableLT κ]

theorem mem_keys_insert :
    other ∈ (dictionary.insert key value).keys ↔ other = key ∨
    other ∈ dictionary.keys := by
  rw [← find?_isSome_iff, ← find?_isSome_iff]
  by_cases same : other = key
  · simp [same]
  · simp [find?_insert_of_ne dictionary value same, same]

theorem find?_insert (dictionary : Dictionary κ α) (key other : κ) (value : α) :
    (dictionary.insert key value).find? other =
      if other = key then some value else dictionary.find? other := by
  split
  next same => rw [same, find?_insert_self]
  next different => exact find?_insert_of_ne dictionary value different

/-- The dictionary after all entries of a list were inserted, one after the
other. -/
def insertAll (dictionary : Dictionary κ α) (entries : List (κ × α)) :
    Dictionary κ α :=
  entries.foldl (fun dictionary entry => dictionary.insert entry.1 entry.2)
    dictionary

@[simp]
theorem insertAll_cons
    (dictionary : Dictionary κ α)
    (entry : κ × α) (rest : List (κ × α)) :
    dictionary.insertAll (entry :: rest) =
      (dictionary.insert entry.1 entry.2).insertAll rest := rfl

theorem mem_keys_insertAll (entries : List (κ × α)) :
    other ∈ (dictionary.insertAll entries).keys ↔ other ∈ entries.map (·.1) ∨
    other ∈ dictionary.keys := by
  induction entries generalizing dictionary with
  | nil => simp [insertAll]
  | cons entry rest inner =>
      rw [insertAll_cons, inner, mem_keys_insert, List.map_cons, List.mem_cons]
      tauto

theorem mem_keys_ofEntries (entries : List (κ × α)) :
    other ∈ (ofEntries entries).keys ↔ other ∈ entries.map (·.1) :=
  (mem_keys_insertAll entries).trans (or_iff_left List.not_mem_nil)

/-- What is found after many insertions was inserted last, or it was there
before. -/
theorem find?_insertAll
    (entries : List (κ × α))
    (dictionary : Dictionary κ α)
    (key : κ) :
    (dictionary.insertAll entries).find? key =
      (entries.reverse.lookup key).or (dictionary.find? key) := by
  induction entries generalizing dictionary with
  | nil => rfl
  | cons entry rest inner =>
      obtain ⟨other, value⟩ := entry
      rw [insertAll_cons, inner, find?_insert, List.reverse_cons,
        List.lookup_append, Option.or_assoc]
      by_cases same : key = other
      · simp [same]
      · simp [List.lookup_cons, same, beq_false_of_ne same]

/-- Of several entries under one key the last one counts. -/
theorem find?_ofEntries (entries : List (κ × α)) (key : κ) :
    (ofEntries entries).find? key = entries.reverse.lookup key :=
  (find?_insertAll entries [] key).trans Option.or_none

variable [LE κ] [Std.IsLinearOrder κ] [Std.LawfulOrderLT κ]

omit [DecidableLT κ] [Std.IsLinearOrder κ] in
/-- Keys before the first one are not there. -/
theorem find?_eq_none_of_lt (before : ∀ entry ∈ dictionary, key < entry.1) :
    dictionary.find? key = none := by
  rw [find?_eq_none_iff]
  intro member
  obtain ⟨entry, held, rfl⟩ := List.mem_map.1 member
  exact Std.lt_irrefl (before entry held)

namespace Ascending

omit [DecidableLT κ] in
/-- Nothing before the first entry is there. -/
theorem find?_eq_none {entry : κ × α}
    {rest : Dictionary κ α}
    (ascending : Ascending (entry :: rest))
    (before : key < entry.1) :
    find? (entry :: rest) key = none := by
  obtain ⟨first, _⟩ := List.pairwise_cons.1 ascending
  exact find?_eq_none_of_lt (List.forall_mem_cons.2
    ⟨before, fun later member => Std.lt_trans before (first later member)⟩)

/-- An insertion keeps the entries in order. -/
theorem insert (ascending : dictionary.Ascending) (key : κ) (value : α) :
    (dictionary.insert key value).Ascending := by
  induction dictionary with
  | nil => exact List.pairwise_singleton _ _
  | cons entry rest inner =>
      obtain ⟨first, others⟩ := List.pairwise_cons.1 ascending
      simp only [Dictionary.insert]
      split
      next same => exact List.pairwise_cons.2 ⟨same ▸ first, others⟩
      next different =>
        split
        next before =>
          refine List.pairwise_cons.2 ⟨fun later member => ?_, ascending⟩
          rcases List.mem_cons.1 member with rfl | old
          · exact before
          · exact Std.lt_trans before (first later old)
        next notBefore =>
          refine List.pairwise_cons.2 ⟨fun later member => ?_, inner others⟩
          have known : later.1 = key ∨ later.1 ∈ keys rest :=
            mem_keys_insert.1 (List.mem_map_of_mem member)
          rcases known with same | old
          · rw [same]
            exact Std.lt_of_le_of_ne (Std.not_lt.1 notBefore)
              (Ne.symm different)
          · obtain ⟨entry, held, same⟩ := List.mem_map.1 old
            exact same ▸ first entry held

theorem insertAll (ascending : dictionary.Ascending) (entries : List (κ × α)) :
    (dictionary.insertAll entries).Ascending := by
  induction entries generalizing dictionary with
  | nil => exact ascending
  | cons entry rest inner => exact inner (ascending.insert entry.1 entry.2)

/-- A dictionary has one entry more after an insertion under a key that was not
there. -/
theorem length_insert (ascending : dictionary.Ascending) (key : κ) (value : α) :
    (dictionary.insert key value).length =
      if key ∈ dictionary.keys then dictionary.length else
        dictionary.length + 1 := by
  induction dictionary with
  | nil => rfl
  | cons entry rest inner =>
      obtain ⟨first, others⟩ := List.pairwise_cons.1 ascending
      simp only [Dictionary.insert, keys_cons, List.mem_cons]
      split
      next same => simp [same]
      next different =>
        split
        next before =>
          have absent := find?_eq_none_iff.1 (ascending.find?_eq_none before)
          simp only [keys_cons, List.mem_cons, not_or] at absent
          simp [different, absent.2]
        next => by_cases present :
          key ∈ keys rest <;> simp [inner others, different, present]

omit [DecidableLT κ] in
/-- Dictionaries in which related values are found under the same keys have the
same keys and related values, entry by entry. -/
theorem forall₂_of_find? {related : α → α → Prop}
    {left right : Dictionary κ α}
    (leftAscending : left.Ascending)
    (rightAscending : right.Ascending)
    (agree : ∀ key, Option.Rel related (left.find? key) (right.find? key)) :
    List.Forall₂ (fun entry another => entry.1 = another.1 ∧
      related entry.2 another.2) left right := by
  induction left generalizing right with
  | nil =>
      cases right with
      | nil => exact .nil
      | cons another others =>
          have missing := agree another.1
          simp only [find?, if_true] at missing
          cases missing
  | cons entry rest inner =>
      obtain ⟨first, restAscending⟩ := List.pairwise_cons.1 leftAscending
      cases right with
      | nil =>
          have missing := agree entry.1
          simp only [find?, if_true] at missing
          cases missing
      | cons another others =>
          obtain ⟨firstOther, othersAscending⟩ :=
            List.pairwise_cons.1 rightAscending
          -- The smaller of the two first keys would be found on one side only.
          have notBefore : ¬ entry.1 < another.1 := by
            intro before
            have found := agree entry.1
            rw [rightAscending.find?_eq_none before] at found
            simp only [find?, if_true] at found
            cases found
          have notBehind : ¬ another.1 < entry.1 := by
            intro before
            have found := agree another.1
            rw [leftAscending.find?_eq_none before] at found
            simp only [find?, if_true] at found
            cases found
          have same : entry.1 = another.1 :=
            Std.le_antisymm (Std.not_lt.1 notBehind) (Std.not_lt.1 notBefore)
          refine .cons ⟨same, ?_⟩
            (inner restAscending othersAscending fun key => ?_)
          · have found := agree entry.1
            simp only [find?, same, if_true] at found
            cases found with
            | some alike => exact alike
          · by_cases here : key = entry.1
            · rw [here, find?_eq_none_of_lt first,
                find?_eq_none_of_lt (same ▸ firstOther)]
              exact .none
            · have found := agree key
              simpa only [find?, here, same ▸ here, if_false] using found

omit [DecidableLT κ] in
/-- Dictionaries are equal if the same is found in them. -/
theorem eq_of_find?_eq {left right : Dictionary κ α}
    (leftAscending : left.Ascending)
    (rightAscending : right.Ascending)
    (agree : ∀ key, left.find? key = right.find? key) :
    left = right := by
  have same (key : κ) : Option.Rel Eq (left.find? key) (right.find? key) := by
    rw [agree key]
    cases right.find? key with
    | none => exact .none
    | some value => exact .some rfl
  have pairs := forall₂_of_find? leftAscending rightAscending same
  exact List.forall₂_eq_eq_eq ▸ pairs.imp fun _ _ equal =>
    Prod.ext equal.1 equal.2

/-- Of two insertions under one key the second one counts. -/
theorem insert_insert_self
    (ascending : dictionary.Ascending)
    (key : κ) (value changed : α) :
    (dictionary.insert key value).insert key changed =
      dictionary.insert key changed := by
  refine ((ascending.insert key value).insert key changed).eq_of_find?_eq
    (ascending.insert key changed) ?_
  intro other
  rw [find?_insert, find?_insert, find?_insert]
  split <;> rfl

/-- The order of insertions under different keys does not matter. -/
theorem insert_comm
    (ascending : dictionary.Ascending)
    (different : key ≠ other) (value another : α) :
    (dictionary.insert key value).insert other another =
      (dictionary.insert other another).insert key value := by
  refine ((ascending.insert key value).insert other another).eq_of_find?_eq
    ((ascending.insert other another).insert key value) ?_
  intro looked
  rw [find?_insert, find?_insert, find?_insert, find?_insert]
  by_cases first : looked = key
  · simp [first, different]
  · simp [first]

end Ascending

theorem ascending_ofEntries (entries : List (κ × α)) :
    (ofEntries entries).Ascending :=
  Ascending.insertAll List.Pairwise.nil entries

end Order

end EffectScript.Dictionary
