/-!
# Outcomes of computations that may fail

A sequence of computations succeeds when each of them does, and it fails where
the first of them fails. These facts open every `do` block of the compiler and
of the machine.
-/

namespace EffectScript.Outcome

variable {ε α β γ : Type}

@[simp]
theorem ok_bind (value : α) (second : α → Except ε β) :
    (Except.ok value >>= second) = second value := rfl

@[simp]
theorem error_bind (cause : ε) (second : α → Except ε β) :
    (Except.error cause >>= second) = .error cause := rfl

/-- Changing the result of a sequence changes that of its second part. -/
theorem map_bind
    (first : Except ε α) (second : α → Except ε β) (change : β → γ) :
    (first >>= second).map change = first >>= fun value =>
      (second value).map change := by
  cases first <;> rfl

/-- A sequence that goes on with a changed result goes on with the change of the
result. -/
theorem bind_map
    (first : Except ε α) (change : α → β) (second : β → Except ε γ) :
    first.map change >>= second = first >>= fun value =>
      second (change value) := by
  cases first <;> rfl

/-- A sequence commutes with changes of its results when both of its parts
do. -/
theorem bind_commutes {δ : Type} {change : α → β}
    {later : γ → δ} {first : Except ε α} {changed : Except ε β}
    {second : α → Except ε γ} {other : β → Except ε δ}
    (early : changed = first.map change)
    (late : ∀ value, other (change value) = (second value).map later) :
    changed >>= other = (first >>= second).map later := by
  cases first with
  | error cause =>
      rw [early]
      rfl
  | ok value =>
      rw [early]
      exact late value

/-- Sequences are equal when their first parts are, and their second parts on
what the first ones give. -/
theorem bind_congr {first other : Except ε α}
    {second later : α → Except ε β}
    (early : first = other)
    (late : ∀ value, other = .ok value → second value = later value) :
    first >>= second = other >>= later := by
  cases early
  cases first with
  | error cause => rfl
  | ok value => exact late value rfl

/-- A sequence succeeds when both of its parts do. -/
theorem bind_eq_ok {first : Except ε α} {second : α → Except ε β} {result : β} :
    first >>= second = .ok result ↔ ∃ value, first = .ok value ∧
    second value = .ok result := by
  cases first with
  | error cause =>
      constructor
      · intro impossible
        cases impossible
      · rintro ⟨value, impossible, _⟩
        cases impossible
  | ok value =>
      constructor
      · intro succeeds
        exact ⟨value, rfl, succeeds⟩
      · rintro ⟨other, same, succeeds⟩
        cases same
        exact succeeds

/-- A sequence whose second part succeeds fails as its first part does. -/
theorem bind_eq_error {first : Except ε α}
    {second : α → Except ε β} {cause : ε}
    (succeeds : ∀ value, ∃ result, second value = .ok result) :
    first >>= second = .error cause ↔ first = .error cause := by
  cases first with
  | error other =>
      constructor
      · intro same
        cases same
        rfl
      · intro same
        cases same
        rfl
  | ok value =>
      obtain ⟨result, done⟩ := succeeds value
      constructor
      · intro failed
        cases done.symm.trans failed
      · intro impossible
        cases impossible

/-- A computation whose result is known succeeds, whatever its errors are. -/
theorem eq_ok_of_toOption {computation : Except ε α}
    {value : α}
    (found : computation.toOption = some value) :
    computation = .ok value := by
  cases computation with
  | error cause => cases found
  | ok other =>
      cases found
      rfl

/-! ## Results and failures -/

section Ends

variable {acceptable : ε → Prop} {good : α → Prop} {better : β → Prop}

/-- The computation succeeds with a good result, or it fails in an acceptable
way. -/
def Ends (acceptable : ε → Prop) (good : α → Prop) : Except ε α → Prop
  | .ok result => good result
  | .error cause => acceptable cause

theorem Ends.bind {first : Except ε α}
    {second : α → Except ε β}
    (early : Ends acceptable good first)
    (late : ∀ result, good result → Ends acceptable better (second result)) :
    Ends acceptable better (first >>= second) := by
  cases first with
  | ok result => exact late result early
  | error cause => exact early

theorem Ends.imp {more : α → Prop}
    {computation : Except ε α}
    (ends : Ends acceptable good computation)
    (weaker : ∀ result, good result → more result) :
    Ends acceptable more computation := by
  cases computation with
  | ok result => exact weaker result ends
  | error cause => exact ends

end Ends

/-! ## Two computations side by side -/

variable {δ : Type} {excused : ε → Prop} {good : α → γ → Prop}
    {better : β → δ → Prop}

/-- The second computation succeeds where the first one does, with a related
result, and fails in the same way where the first one fails; failures that are
excused say nothing about it. -/
def Follows
    (excused : ε → Prop) (good : α → γ → Prop) (first : Except ε α)
    (second : Except ε γ) : Prop :=
  match first with
  | .ok value => ∃ other, second = .ok other ∧ good value other
  | .error cause => excused cause ∨ second = .error cause

/-- Both computations succeed with related results or fail in the same way. -/
abbrev Agree (good : α → γ → Prop) (first : Except ε α) (second : Except ε γ) :
    Prop :=
  Follows (fun _ => False) good first second

theorem Follows.ok {value : α} {other : γ} (related : good value other) :
    Follows excused good (.ok value) (.ok other) :=
  ⟨other, rfl, related⟩

theorem Follows.error (cause : ε) :
    Follows excused good (.error cause) (.error cause) :=
  .inr rfl

theorem Follows.imp {more : α → γ → Prop}
    {first : Except ε α} {second : Except ε γ}
    (follows : Follows excused good first second)
    (weaker : ∀ value other, good value other → more value other) :
    Follows excused more first second := by
  cases first with
  | ok value =>
      obtain ⟨other, rfl, related⟩ := follows
      exact ⟨other, rfl, weaker value other related⟩
  | error cause => exact follows

theorem Follows.bind {first : Except ε α}
    {second : Except ε γ} {rest : α → Except ε β} {others : γ → Except ε δ}
    (follows : Follows excused good first second)
    (next : ∀ value other, good value other →
      Follows excused better (rest value) (others other)) :
    Follows excused better (first >>= rest) (second >>= others) := by
  cases first with
  | ok value =>
      obtain ⟨other, rfl, related⟩ := follows
      exact next value other related
  | error cause =>
      rcases follows with excuse | rfl
      · exact .inl excuse
      · exact .inr rfl

end EffectScript.Outcome
