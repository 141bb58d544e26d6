import EffectScript.Proofs.Records

/-!
# Indices of pools

Operands refer to constants and names by indices of one byte. An index is given
out once and is relied on until the code has run, so a pool may only grow, and
no further than one byte counts. Scalars are pooled by content: equal ones share
an index. Everything else, functions above all, gets an index of its own each
time. Names are kept twice, in the order of their indices and by text.

That all this stays in order is said of records, whose past tells every index
that was given out.
-/

namespace EffectScript.Draft

variable {draft later : Draft} {value : Value} {name : String} {line : UInt32}
    {index : UInt8}

/-! ## One call -/

/-- What needs a new index of a pool is refused exactly if all are given
out. -/
theorem added_eq_error {α : Type} {given limit : Nat} {added : α}
    {refusal error : CompileError} :
    (if given < limit then .ok added else .error refusal :
      Except CompileError α) = .error error ↔
      error = refusal ∧ limit ≤ given := by
  split
  next free =>
    constructor
    · intro impossible
      cases impossible
    · rintro ⟨_, full⟩
      exact absurd free (Nat.not_lt_of_le full)
  next full =>
    constructor
    · intro refused
      cases refused
      exact ⟨rfl, Nat.le_of_not_lt full⟩
    · rintro ⟨rfl, _⟩
      rfl

/-- A constant is refused exactly if it needs an index and all are given out. -/
theorem addConstant_eq_error {error : CompileError} :
    draft.addConstant value line = .error error ↔
      error = .tooMany .constants line ∧ ¬ draft.Shares value ∧
      256 ≤ draft.constants.length := by
  simp only [Draft.addConstant]
  split
  next position found =>
    obtain ⟨scalar, stands⟩ := getElem?_of_findIdx? found
    constructor
    · intro impossible
      cases impossible
    · rintro ⟨_, apart, _⟩
      exact absurd ⟨scalar, List.mem_of_getElem? stands⟩ apart
  next absent =>
    have apart := not_shares_of_findIdx? absent
    rw [added_eq_error]
    exact and_congr_right fun _ => (and_iff_right apart).symm

/-- A name is refused exactly if it needs an index and all are given out. -/
theorem nameIndex_eq_error {error : CompileError} :
    draft.nameIndex name line = .error error ↔
      error = .tooMany .names line ∧ draft.nameIndices.find? name = none ∧
      256 ≤ draft.names.length := by
  simp only [Draft.nameIndex]
  split
  next held found =>
    constructor
    · intro impossible
      cases impossible
    · rintro ⟨_, absent, _⟩
      cases found.symm.trans absent
  next absent =>
    rw [added_eq_error]
    exact and_congr_right fun _ => (and_iff_right absent).symm

/-! ## What every call keeps -/

/-- An entry stands where it stood, however the pool grows. -/
theorem stands_append {α : Type} {pool more : List α}
    {entry : α} {position : Nat}
    (stands : pool[position]? = some entry) :
    (pool ++ more)[position]? = some entry := by
  rw [List.getElem?_append_left (List.getElem?_eq_some_iff.1 stands).1]
  exact stands

/-- An entry of a longer pool is one of before, or the new one. -/
theorem stands_concat {α : Type} {pool : List α}
    {added entry : α} {position : Nat}
    (stands : (pool ++ [added])[position]? = some entry) :
    pool[position]? = some entry ∨ position = pool.length ∧ entry = added := by
  rcases Nat.lt_trichotomy position pool.length with before | here | behind
  · rw [List.getElem?_append_left before] at stands
    exact .inl stands
  · rw [here, List.getElem?_concat_length] at stands
    exact .inr ⟨here, (Option.some.inj stands).symm⟩
  · have short : (pool ++ [added]).length ≤ position := by
      rw [List.length_append]
      exact behind
    rw [List.getElem?_eq_none short] at stands
    cases stands

/-- The pools of a draft are in order. -/
structure Pooled (draft : Draft) : Prop where
  constantsRoom : draft.constants.length ≤ 256
  namesRoom : draft.names.length ≤ 256
  /-- A scalar is pooled once. -/
  once : ∀ (first second : Nat) (value : Value), value.isScalar →
    draft.constants[first]? = some value →
    draft.constants[second]? = some value → first = second
  /-- Both ways in which the names are kept agree. -/
  agree : ∀ (name : String) (index : UInt8),
    draft.nameIndices.find? name = some index ↔
    draft.names[index.toNat]? = some name

theorem Unwritten.pooled (unwritten : draft.Unwritten) : draft.Pooled := by
  constructor
  case constantsRoom => simp [unwritten.constants]
  case namesRoom => simp [unwritten.names]
  case once => simp [unwritten.constants]
  case agree => simp [unwritten.names, unwritten.nameIndices, Dictionary.find?]

namespace Pooled

theorem addConstant
    (pooled : draft.Pooled)
    (added : draft.addConstant value line = .ok (index, later)) :
    later.Pooled := by
  rcases addConstant_cases added with ⟨_, _, rfl⟩ | ⟨apart, free, _, rfl⟩
  · exact pooled
  · refine { pooled with constantsRoom := ?_, once := ?_ }
    · rw [List.length_append]
      exact free
    · intro first second scalar plain stands stood
      have absent {position : Nat}
          (present : draft.constants[position]? = some value)
          (same : scalar = value) : False :=
        apart ⟨same ▸ plain, List.mem_of_getElem? present⟩
      rcases stands_concat stands with old | ⟨here, same⟩ <;>
        rcases stands_concat stood with held | ⟨there, alike⟩
      · exact pooled.once first second scalar plain old held
      · rw [alike] at old
        exact (absent old alike).elim
      · rw [same] at held
        exact (absent held same).elim
      · exact here.trans there.symm

theorem nameIndex
    (pooled : draft.Pooled)
    (named : draft.nameIndex name line = .ok (index, later)) :
    later.Pooled := by
  rcases nameIndex_cases named with ⟨_, rfl⟩ | ⟨absent, free, place, rfl⟩
  · exact pooled
  · refine { pooled with namesRoom := ?_, agree := ?_ }
    · rw [List.length_append]
      exact free
    · intro other position
      by_cases same : other = name
      · rw [same, Dictionary.find?_insert_self]
        constructor
        · intro found
          cases found
          rw [place]
          exact List.getElem?_concat_length
        · intro stands
          rcases stands_concat stands with old | ⟨here, _⟩
          · cases absent.symm.trans ((pooled.agree name position).2 old)
          · exact congrArg some (UInt8.toNat_inj.1 (place.trans here.symm))
      · rw [Dictionary.find?_insert_of_ne _ _ same, pooled.agree]
        constructor
        · exact stands_append
        · intro stands
          rcases stands_concat stands with old | ⟨_, alike⟩
          · exact old
          · exact absurd alike same

end Pooled

/-- Every index that was given out is still right. -/
structure Record.Indexed (record : Record) :
    Prop extends record.draft.Pooled where
  constants : ∀ (value : Value) (index : UInt8), (value, index) ∈
      record.constants →
    record.draft.constants[index.toNat]? = some value
  names : ∀ (name : String) (index : UInt8), (name, index) ∈ record.names →
    record.draft.names[index.toNat]? = some name
  /-- Equal scalars share an index, and nothing else does. -/
  shared : record.constants.Pairwise fun newer older =>
    newer.2 = older.2 ↔ newer.1.isScalar ∧ newer.1 = older.1

theorem Unwritten.indexed (unwritten : draft.Unwritten) :
    ({ draft := draft } : Record).Indexed :=
  { unwritten.pooled with
    constants := fun _ _ member => absurd member List.not_mem_nil
    names := fun _ _ member => absurd member List.not_mem_nil
    shared := List.Pairwise.nil }

namespace Record.Indexed

variable {record : Record}

/-- The draft changes in nothing that indices refer to. -/
theorem congr
    (indexed : record.Indexed)
    {after : Record}
    (constants : after.draft.constants = record.draft.constants)
    (names : after.draft.names = record.draft.names)
    (nameIndices : after.draft.nameIndices = record.draft.nameIndices)
    (given : after.constants = record.constants)
    (givenNames : after.names = record.names) :
    after.Indexed := by
  obtain ⟨⟨constantsRoom, namesRoom, once, agree⟩, stand, namesStand, shared⟩ :=
    indexed
  rw [← constants] at constantsRoom once stand
  rw [← names] at namesRoom agree namesStand
  rw [← nameIndices] at agree
  rw [← given] at stand shared
  rw [← givenNames] at namesStand
  exact ⟨⟨constantsRoom, namesRoom, once, agree⟩, stand, namesStand, shared⟩

theorem addConstant
    (indexed : record.Indexed)
    (added : record.draft.addConstant value line = .ok (index, later)) :
    ({ record with draft := later, constants :=
      (value, index) :: record.constants } : Record).Indexed := by
  have pooled := indexed.toPooled.addConstant added
  rcases addConstant_cases added
    with ⟨⟨scalar, _⟩, found, rfl⟩ | ⟨apart, _, place, rfl⟩
  · have stands := found indexed.constantsRoom
    refine { pooled with
      constants := ?_
      names := indexed.names
      shared := List.pairwise_cons.2 ⟨?_, indexed.shared⟩ }
    · intro other position member
      rcases List.mem_cons.1 member with new | old
      · cases new
        exact stands
      · exact indexed.constants other position old
    · rintro ⟨other, position⟩ member
      have held := indexed.constants other position member
      constructor
      · rintro rfl
        exact ⟨scalar, Option.some.inj (stands.symm.trans held)⟩
      · rintro ⟨_, rfl⟩
        exact UInt8.toNat_inj.1 (indexed.once _ _ value scalar stands held)
  · refine { pooled with
      constants := ?_
      names := indexed.names
      shared := List.pairwise_cons.2 ⟨?_, indexed.shared⟩ }
    · intro other position member
      rcases List.mem_cons.1 member with new | old
      · cases new
        rw [place]
        exact List.getElem?_concat_length
      · exact stands_append (indexed.constants other position old)
    · rintro ⟨other, position⟩ member
      have held := indexed.constants other position member
      constructor
      · rintro rfl
        -- An index that was given out before is within the old pool.
        have within := (List.getElem?_eq_some_iff.1 held).1
        exact absurd place (Nat.ne_of_lt within)
      · rintro ⟨scalar, rfl⟩
        exact absurd ⟨scalar, List.mem_of_getElem? held⟩ apart

theorem nameIndex
    (indexed : record.Indexed)
    (named : record.draft.nameIndex name line = .ok (index, later)) :
    ({ record with draft := later, names := (name, index) :: record.names } :
      Record).Indexed := by
  have pooled := indexed.toPooled.nameIndex named
  rcases nameIndex_cases named with ⟨found, rfl⟩ | ⟨_, _, place, rfl⟩
  · refine { indexed with names := ?_ }
    intro other position member
    rcases List.mem_cons.1 member with new | old
    · cases new
      exact (indexed.agree name index).1 found
    · exact indexed.names other position old
  · refine { pooled with constants := indexed.constants, names := ?_, shared :=
      indexed.shared }
    intro other position member
    rcases List.mem_cons.1 member with new | old
    · cases new
      rw [place]
      exact List.getElem?_concat_length
    · exact stands_append (indexed.names other position old)

/-- Every operation leaves all indices right. -/
theorem perform
    (indexed : record.Indexed)
    {operation : Operation} {after : Record}
    (performed : record.perform line operation = .ok after) :
    after.Indexed := by
  cases operation with
  | declare name =>
      obtain ⟨⟨slot, later⟩, declared, result⟩ := Outcome.bind_eq_ok.1 performed
      cases result
      obtain ⟨_, rfl⟩ := declare_eq declared
      exact indexed.congr rfl rfl rfl rfl rfl
  | declareCapture name outer =>
      obtain ⟨⟨slot, later⟩, captured, result⟩ := Outcome.bind_eq_ok.1 performed
      cases result
      obtain ⟨_, rfl⟩ := declareCapture_eq captured
      exact indexed.congr rfl rfl rfl rfl rfl
  | addConstant value =>
      obtain ⟨⟨index, later⟩, added, result⟩ := Outcome.bind_eq_ok.1 performed
      cases result
      exact indexed.addConstant added
  | nameIndex name =>
      obtain ⟨⟨index, later⟩, named, result⟩ := Outcome.bind_eq_ok.1 performed
      cases result
      exact indexed.nameIndex named
  | promote slot =>
      cases performed
      unfold Draft.promote
      split <;> exact indexed.congr rfl rfl rfl rfl rfl
  | discard nils =>
      cases performed
      have emitted :
          ({ record with draft := record.draft.emit .pop [] line } :
            Record).Indexed :=
        indexed.congr rfl rfl rfl rfl rfl
      unfold Draft.discard
      split
      next =>
        split
        next => exact indexed.congr rfl rfl rfl rfl rfl
        next => exact emitted
      next => exact emitted
  | patchJump site =>
      obtain ⟨later, patched, result⟩ := Outcome.bind_eq_ok.1 performed
      cases result
      have alike := alike_patchTo patched
      exact indexed.congr alike.constants alike.names alike.nameIndices rfl rfl
  | patchHandler site =>
      obtain ⟨later, patched, result⟩ := Outcome.bind_eq_ok.1 performed
      cases result
      have alike := alike_patchTo patched
      exact indexed.congr alike.constants alike.names alike.nameIndices rfl rfl
  | emitLoop destination =>
      obtain ⟨later, looped, result⟩ := Outcome.bind_eq_ok.1 performed
      cases result
      obtain rfl := emitLoop_eq looped
      exact indexed.congr rfl rfl rfl rfl rfl
  | emit | addComment | emitStatementNil | label | emitJump | emitSetHandler =>
      cases performed
      exact indexed.congr rfl rfl rfl rfl rfl

/-- Names share an index exactly if they are equal. -/
theorem names_shared
    (indexed : record.Indexed)
    {first second : String × UInt8}
    (member : first ∈ record.names)
    (other : second ∈ record.names) :
    first.2 = second.2 ↔ first.1 = second.1 := by
  have stands := indexed.names first.1 first.2 member
  have stood := indexed.names second.1 second.2 other
  constructor
  · intro same
    rw [same] at stands
    exact Option.some.inj (stands.symm.trans stood)
  · intro same
    have found := (indexed.agree first.1 first.2).2 stands
    rw [same] at found
    exact Option.some.inj
      (found.symm.trans ((indexed.agree second.1 second.2).2 stood))

/-- A name without an index is not pooled. -/
theorem find?_eq_none_iff (indexed : record.Indexed) :
    record.draft.nameIndices.find? name = none ↔ name ∉ record.draft.names := by
  constructor
  · intro absent member
    obtain ⟨position, stands⟩ := List.mem_iff_getElem?.1 member
    have small : position < 256 :=
      Nat.lt_of_lt_of_le (List.getElem?_eq_some_iff.1 stands).1
        indexed.namesRoom
    rw [← UInt8.toNat_ofNat_of_lt' small] at stands
    cases absent.symm.trans ((indexed.agree name _).2 stands)
  · intro absent
    cases found : record.draft.nameIndices.find? name with
    | none => rfl
    | some index =>
        exact absurd (List.mem_of_getElem? ((indexed.agree name index).1 found))
          absent

end Record.Indexed

/-! ## Every run -/

/-- Indices are right, and new ones are refused only when all are given out. -/
structure Record.Accounted (record : Record) : Prop extends record.Indexed where
  /-- Equal names share an index, and nothing else does. -/
  sharedNames : ∀ first ∈ record.names, ∀ second ∈ record.names,
    first.2 = second.2 ↔ first.1 = second.1
  constantRefused : ∀ (value : Value) (line : UInt32) (error : CompileError),
    record.perform line (.addConstant value) = .error error ↔
      error = .tooMany .constants line ∧
      ¬ (value.isScalar ∧ value ∈ record.draft.constants) ∧
        record.draft.constants.length = 256
  nameRefused : ∀ (name : String) (line : UInt32) (error : CompileError),
    record.perform line (.nameIndex name) = .error error ↔
      error = .tooMany .names line ∧ name ∉ record.draft.names ∧
      record.draft.names.length = 256
  unchanged : ∀ (operation : Operation) (line : UInt32) (error : CompileError),
    record.perform line operation = .error error →
    record.after line operation = record

theorem Record.Indexed.accounted {record : Record} (indexed : record.Indexed) :
    record.Accounted := by
  refine
    { indexed
      with sharedNames := ?_, constantRefused := ?_, nameRefused :=
        ?_, unchanged := ?_ }
  · exact fun first member second other => indexed.names_shared member other
  · intro value line error
    have full : 256 ≤ record.draft.constants.length ↔
        record.draft.constants.length = 256 := by
      have := indexed.constantsRoom
      omega
    rw [← full]
    exact (Outcome.bind_eq_error fun _ => ⟨_, rfl⟩).trans addConstant_eq_error
  · intro name line error
    have full : 256 ≤ record.draft.names.length ↔
        record.draft.names.length = 256 := by
      have := indexed.namesRoom
      omega
    rw [← full, ← indexed.find?_eq_none_iff]
    exact (Outcome.bind_eq_error fun _ => ⟨_, rfl⟩).trans nameIndex_eq_error
  · intro operation line error failed
    rw [Record.after, failed]

/-- Whatever is done to a new draft, all indices that were given out stay
right. -/
theorem indices_stay_right {name : String}
    {parameters : List String} {line : UInt32}
    (started : Draft.start name parameters line = .ok draft)
    (operations : List (UInt32 × Operation)) :
    (({ draft := draft } : Record).run operations).Accounted := by
  have indexed := Record.run_keeps Record.Indexed
    (fun indexed performed => indexed.perform performed)
    operations (unwritten_start started).indexed
  exact indexed.accounted

/-- Calls that ask for scalars, names and a function more than once. -/
def repeatedCalls : List (UInt32 × Operation) :=
  let function : Value := .function 7 ({ name := "g" } : Draft).finish
  [(1, .addConstant (.int 1)), (1, .nameIndex "x"),
    (1, .addConstant (.str "a")), (2, .nameIndex "y"),
    (2, .addConstant (.int 1)), (2, .nameIndex "x"), (3, .addConstant function),
    (3, .addConstant function)]

/-- Equal scalars and names share an index, and equal functions do not. -/
theorem indices_stay_right_of_repeatedCalls :
    ∃ draft, Draft.start "f" [] 1 = .ok draft ∧
      (({ draft := draft } : Record).run repeatedCalls).constants.map (·.2) =
        [3, 2, 0, 1, 0] ∧
      (({ draft := draft } : Record).run repeatedCalls).names =
        [("x", 0), ("y", 1), ("x", 0)] ∧
      (({ draft := draft } : Record).run repeatedCalls).Accounted := by
  have started : Draft.start "f" [] 1 =
      .ok (({ name := "f" } : Draft).addSlot "f" 0) := rfl
  exact ⟨_, started, by decide +kernel, by
    decide +kernel, indices_stay_right started repeatedCalls⟩

end EffectScript.Draft
