import EffectScript.Proofs.Promotion

/-!
# The names of functions

While a function is being written, it and the functions around it keep their
names, in whichever of its ways lowering edits them. So the function that a
program becomes has the name that it was begun with.
-/

namespace EffectScript

namespace Draft

@[simp]
theorem name_promote (draft : Draft) (slot : UInt8) :
    (draft.promote slot).name = draft.name := by
  unfold promote
  split <;> rfl

theorem start_named {name : String}
    {parameters : List String} {line : UInt32} {draft : Draft}
    (started : Draft.start name parameters line = .ok draft) :
    draft.name = name := by
  obtain ⟨slotNames, rfl, _⟩ := declareAll_numbered started trivial
  rfl

end Draft

namespace Nest

/-- The names of the function being written and of those around it, the
innermost one first. -/
def titles (nest : Nest) : List String :=
  nest.current.name :: nest.enclosing.map Draft.name

theorem titles_of_resolveFrom {name : String}
    {line : UInt32} {current later : Draft} {enclosing beyond : List Draft}
    {found : Option UInt8}
    (resolved : resolveFrom name line current enclosing = .ok
      (found, later, beyond)) :
    later.name = current.name ∧
      beyond.map Draft.name = enclosing.map Draft.name := by
  induction enclosing generalizing current later beyond found with
  | nil =>
      cases resolved
      exact ⟨rfl, rfl⟩
  | cons outer others inner =>
      simp only [resolveFrom] at resolved
      split at resolved
      · cases resolved
        exact ⟨rfl, rfl⟩
      · split at resolved
        · cases resolved
          exact ⟨rfl, rfl⟩
        · obtain ⟨⟨outerFound, outerLater, othersLater⟩, searched, rest⟩ :=
            Outcome.bind_eq_ok.1 resolved
          obtain ⟨outerSame, othersSame⟩ := inner searched
          cases outerFound with
          | none =>
              cases rest
              exact ⟨rfl, by rw [List.map_cons, outerSame, othersSame]; rfl⟩
          | some outerSlot =>
              obtain ⟨⟨slot, captured⟩, declared, result⟩ :=
                Outcome.bind_eq_ok.1 rest
              cases result
              obtain ⟨_, rfl⟩ := Draft.declareCapture_eq declared
              refine ⟨rfl, ?_⟩
              rw [List.map_cons, Draft.name_promote, outerSame, othersSame]
              rfl

/-- Lowering keeps the names of the functions that are being written. -/
theorem Edits.titles_eq {nest later : Nest} (edits : Edits nest later) :
    later.titles = nest.titles := by
  induction edits with
  | refl nest => rfl
  | @write nest later draft _ alike inner =>
      exact (congrArg (· :: later.enclosing.map Draft.name) alike.name).trans
        inner
  | @resolve nest later last name line found _ resolved inner =>
      obtain ⟨⟨_, current, enclosing⟩, searched, result⟩ :=
        Outcome.bind_eq_ok.1 resolved
      cases result
      obtain ⟨currentSame, enclosingSame⟩ := titles_of_resolveFrom searched
      exact (congrArg₂ List.cons currentSame enclosingSame).trans inner
  | @declare nest later name line slot draft _ _ declared inner =>
      obtain ⟨_, rfl⟩ := Draft.declare_eq declared
      exact inner
  | @nameIndex nest later name line index draft _ named inner =>
      rcases Draft.nameIndex_cases named with ⟨_, rfl⟩ | ⟨_, _, _, rfl⟩
      · exact inner
      · exact inner
  | @constant nest later value line index draft _ _ pooled inner =>
      rcases Draft.addConstant_cases pooled with ⟨_, _, rfl⟩ | ⟨_, _, _, rfl⟩
      · exact inner
      · exact inner
  | @function nest outer body name parameters line started pool index identity
      finished _ _ _ pooled outerSame bodySame =>
      -- The functions around the body are those that it was begun in.
      have around : body.enclosing.map Draft.name = outer.titles :=
        (List.cons.inj bodySame).2
      obtain ⟨outerLater, beyond, enclosing⟩ :=
        List.exists_cons_of_ne_nil (l := body.enclosing) (by
          rintro none
          rw [none] at around
          cases around)
      obtain ⟨current, rest⟩ := leave_eq enclosing outer line
      have pooledSame : pool.name = outerLater.name := by
        rcases Draft.addConstant_cases pooled with ⟨_, _, rfl⟩ | ⟨_, _, _, rfl⟩
        · rw [current]
        · rw [current]
      rw [enclosing] at around
      rw [← outerSame, ← around, titles, pooledSame, rest]
      rfl

end Nest

/-- The function that a program becomes has the name of scripts. -/
theorem Block.compileWith_named {nils : StatementNils}
    {program : Block} {script : Template}
    (compiled : program.compileWith nils = .ok script) :
    script.name = scriptName := by
  obtain ⟨draft, lowered, started, bodyLowered, rfl⟩ := Lowered.program compiled
  have edits := lowerBlock_edits program (.refl ⟨draft, [], 0⟩) bodyLowered
  have same : lowered.current.name = draft.name :=
    (List.cons.inj edits.titles_eq).1
  exact same.trans (Draft.start_named started)

end EffectScript
