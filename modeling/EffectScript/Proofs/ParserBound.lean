import EffectScript.Proofs.TokenCoverage

/-!
# The bound on the depth of the parser never matters

A larger bound does not change what a parser function gives, unless the smaller
one was too small. And a bound that grows with the count of tokens is large
enough: every function moves the cursor before it comes back to itself, and
between two tokens there are fewer than sixteen calls inside one another.

So the parser functions can be spoken of without a bound, each through one
equation.
-/

namespace EffectScript.Parser

variable {α β : Type} {cursor after : Cursor} {bound other : Nat}

/-! ## A larger bound changes nothing -/

/-- The error that says that the bound was too small. -/
def TooDeep (error : SourceError) : Prop :=
  ∃ position, error = ⟨.nestedTooDeep, position⟩

/-- The second computation gives what the first one gives, unless that one ran
into its bound. -/
abbrev Outlasts (first second : Except SourceError α) : Prop :=
  Outcome.Follows TooDeep Eq first second

namespace Outlasts

theorem refl (parsed : Except SourceError α) : Outlasts parsed parsed := by
  cases parsed with
  | ok value => exact ⟨value, rfl, rfl⟩
  | error error => exact .inr rfl

theorem tooDeep {position : Position} {parsed : Except SourceError α} :
    Outlasts (.error ⟨.nestedTooDeep, position⟩) parsed :=
  .inl ⟨position, rfl⟩

theorem bind {first second : Except SourceError α}
    {rest others : α → Except SourceError β}
    (outlasts : Outlasts first second)
    (later : ∀ value, Outlasts (rest value) (others value)) :
    Outlasts (first >>= rest) (second >>= others) :=
  Outcome.Follows.bind outlasts fun value _ same => same ▸ later value

end Outlasts

theorem outlasts_moreParameters (larger : bound ≤ other) (cursor : Cursor) :
    Outlasts (moreParameters bound cursor) (moreParameters other cursor) := by
  induction bound generalizing other cursor with
  | zero => exact .tooDeep
  | succ bound inner =>
      cases other with
      | zero => omega
      | succ other =>
          simp only [moreParameters, plain, pure_bind]
          split
          · refine .bind (.refl _) fun name => ?_
            exact .bind (inner (Nat.le_of_succ_le_succ larger) _)
              fun names => .refl _
          · exact .refl _

theorem outlasts_parameters (larger : bound ≤ other) (cursor : Cursor) :
    Outlasts (parameters bound cursor) (parameters other cursor) := by
  simp only [parameters, plain, pure_bind]
  split
  · exact .refl _
  · refine .bind (.refl _) fun name => ?_
    exact .bind (outlasts_moreParameters larger _) fun names => .refl _

mutual

theorem outlasts_expression :
    {bound other : Nat} → bound ≤ other → (cursor : Cursor) →
      Outlasts (expression bound cursor) (expression other cursor)
  | 0, _, _, _ => .tooDeep
  | bound + 1, other + 1, larger, cursor => by
      have inner := Nat.le_of_succ_le_succ larger
      simp only [expression, plain, pure_bind]
      refine .bind (outlasts_binary inner .equality cursor) fun target => ?_
      split
      · exact .bind (outlasts_expression inner _) fun value => .refl _
      · exact .refl _
termination_by structural bound => bound

theorem outlasts_binary :
    {bound other : Nat} → bound ≤ other → (level : Precedence) →
      (cursor : Cursor) →
        Outlasts (binary bound level cursor) (binary other level cursor)
  | 0, _, _, _, _ => .tooDeep
  | bound + 1, other + 1, larger, level, cursor => by
      have inner := Nat.le_of_succ_le_succ larger
      simp only [binary]
      exact .bind (outlasts_operand inner level cursor) fun left =>
        outlasts_moreOperands inner level left.1 left.2
termination_by structural bound => bound

theorem outlasts_moreOperands :
    {bound other : Nat} → bound ≤ other → (level : Precedence) →
      (left : Expr) → (cursor : Cursor) →
      Outlasts (moreOperands bound level left cursor)
        (moreOperands other level left cursor)
  | 0, _, _, _, _, _ => .tooDeep
  | bound + 1, other + 1, larger, level, left, cursor => by
      have inner := Nat.le_of_succ_le_succ larger
      simp only [moreOperands, plain, pure_bind]
      split
      · exact .bind (outlasts_operand inner level _) fun right =>
          outlasts_moreOperands inner level _ right.2
      · exact .refl _
termination_by structural bound => bound

theorem outlasts_operand :
    {bound other : Nat} → bound ≤ other → (level : Precedence) →
      (cursor : Cursor) →
        Outlasts (operand bound level cursor) (operand other level cursor)
  | 0, _, _, _, _ => .tooDeep
  | bound + 1, other + 1, larger, level, cursor => by
      have inner := Nat.le_of_succ_le_succ larger
      simp only [operand]
      split
      · exact outlasts_binary inner _ cursor
      · exact outlasts_unary inner cursor
termination_by structural bound => bound

theorem outlasts_unary :
    {bound other : Nat} → bound ≤ other → (cursor : Cursor) →
      Outlasts (unary bound cursor) (unary other cursor)
  | 0, _, _, _ => .tooDeep
  | bound + 1, other + 1, larger, cursor => by
      have inner := Nat.le_of_succ_le_succ larger
      simp only [unary, plain, pure_bind]
      split
      · split
        · exact .bind (outlasts_unary inner _) fun operand => .refl _
        · exact outlasts_call inner cursor
      · exact outlasts_call inner cursor
termination_by structural bound => bound

theorem outlasts_call :
    {bound other : Nat} → bound ≤ other → (cursor : Cursor) →
      Outlasts (call bound cursor) (call other cursor)
  | 0, _, _, _ => .tooDeep
  | bound + 1, other + 1, larger, cursor => by
      have inner := Nat.le_of_succ_le_succ larger
      simp only [call]
      exact .bind (outlasts_primary inner cursor) fun callee =>
        outlasts_moreCalls inner callee.1 callee.2
termination_by structural bound => bound

theorem outlasts_moreCalls :
    {bound other : Nat} → bound ≤ other → (callee : Expr) →
      (cursor : Cursor) → Outlasts (moreCalls bound callee cursor)
        (moreCalls other callee cursor)
  | 0, _, _, _, _ => .tooDeep
  | bound + 1, other + 1, larger, callee, cursor => by
      have inner := Nat.le_of_succ_le_succ larger
      simp only [moreCalls, plain, pure_bind]
      split
      · exact .bind (outlasts_arguments inner _) fun arguments =>
          outlasts_moreCalls inner _ arguments.2
      · exact .refl _
termination_by structural bound => bound

theorem outlasts_arguments :
    {bound other : Nat} → bound ≤ other → (cursor : Cursor) →
      Outlasts (arguments bound cursor) (arguments other cursor)
  | 0, _, _, _ => .tooDeep
  | bound + 1, other + 1, larger, cursor => by
      have inner := Nat.le_of_succ_le_succ larger
      simp only [arguments, plain, pure_bind]
      split
      · exact .refl _
      · refine .bind (outlasts_expression inner cursor) fun first => ?_
        exact .bind (outlasts_moreArguments inner first.2) fun others => .refl _
termination_by structural bound => bound

theorem outlasts_moreArguments :
    {bound other : Nat} → bound ≤ other → (cursor : Cursor) →
      Outlasts (moreArguments bound cursor) (moreArguments other cursor)
  | 0, _, _, _ => .tooDeep
  | bound + 1, other + 1, larger, cursor => by
      have inner := Nat.le_of_succ_le_succ larger
      simp only [moreArguments, plain, pure_bind]
      split
      · refine .bind (outlasts_expression inner _) fun first => ?_
        exact .bind (outlasts_moreArguments inner first.2) fun others => .refl _
      · exact .refl _
termination_by structural bound => bound

theorem outlasts_primary :
    {bound other : Nat} → bound ≤ other → (cursor : Cursor) →
      Outlasts (primary bound cursor) (primary other cursor)
  | 0, _, _, _ => .tooDeep
  | bound + 1, other + 1, larger, cursor => by
      have inner := Nat.le_of_succ_le_succ larger
      simp only [primary, plain, pure_bind]
      split
      · exact .refl _
      · exact .bind (outlasts_expression inner _) fun grouped => .refl _
      · exact .bind (outlasts_block inner _) fun body => .refl _
      · exact outlasts_branch inner cursor
      · refine .bind (outlasts_expression inner _) fun condition => ?_
        exact .bind (outlasts_block inner _) fun body => .refl _
      · refine .bind (.refl _) fun name => .bind (.refl _) fun afterParen => ?_
        refine .bind (outlasts_parameters inner _) fun names => ?_
        exact .bind (outlasts_block inner _) fun body => .refl _
      · refine .bind (outlasts_block inner _) fun body => ?_
        exact .bind (outlasts_clauses inner _) fun clauses => .refl _
      · refine .bind (.refl _) fun effect => ?_
        split
        · split
          · exact .refl _
          · exact .bind (outlasts_expression inner _) fun payload => .refl _
        · exact .refl _
      · exact .refl _
      · exact .refl _
termination_by structural bound => bound

theorem outlasts_branch :
    {bound other : Nat} → bound ≤ other → (cursor : Cursor) →
      Outlasts (branch bound cursor) (branch other cursor)
  | 0, _, _, _ => .tooDeep
  | bound + 1, other + 1, larger, cursor => by
      have inner := Nat.le_of_succ_le_succ larger
      simp only [branch, plain, pure_bind]
      refine .bind (outlasts_expression inner _) fun condition => ?_
      refine .bind (outlasts_block inner _) fun consequence => ?_
      split
      · split
        · exact .bind (outlasts_branch inner _) fun alternative => .refl _
        · exact .bind (outlasts_block inner _) fun alternative => .refl _
      · exact .refl _
termination_by structural bound => bound

theorem outlasts_clauses :
    {bound other : Nat} → bound ≤ other → (cursor : Cursor) →
      Outlasts (clauses bound cursor) (clauses other cursor)
  | 0, _, _, _ => .tooDeep
  | bound + 1, other + 1, larger, cursor => by
      have inner := Nat.le_of_succ_le_succ larger
      simp only [clauses, plain, pure_bind]
      split
      · refine .bind (.refl _) fun effect =>
          .bind (.refl _) fun afterOpening => ?_
        refine .bind (.refl _) fun parameter =>
          .bind (.refl _) fun afterClosing => ?_
        refine .bind (outlasts_block inner _) fun body => ?_
        exact .bind (outlasts_clauses inner _) fun others => .refl _
      · exact .refl _
termination_by structural bound => bound

theorem outlasts_block :
    {bound other : Nat} → bound ≤ other → (cursor : Cursor) →
      Outlasts (block bound cursor) (block other cursor)
  | 0, _, _, _ => .tooDeep
  | bound + 1, other + 1, larger, cursor => by
      have inner := Nat.le_of_succ_le_succ larger
      simp only [block, plain, pure_bind]
      refine .bind (.refl _) fun afterOpening => ?_
      exact .bind (outlasts_sequence inner true _) fun expressions => .refl _
termination_by structural bound => bound

theorem outlasts_sequence :
    {bound other : Nat} → bound ≤ other → (braced : Bool) →
      (cursor : Cursor) →
        Outlasts (sequence bound braced cursor) (sequence other braced cursor)
  | 0, _, _, _, _ => .tooDeep
  | bound + 1, other + 1, larger, braced, cursor => by
      have inner := Nat.le_of_succ_le_succ larger
      simp only [sequence, plain, pure_bind]
      split
      · exact .refl _
      · refine .bind (outlasts_expression inner cursor) fun first => ?_
        exact .bind (outlasts_sequence inner braced _) fun others => .refl _
termination_by structural bound => bound

end

/-! ## The cursor moves -/

end EffectScript.Parser

namespace EffectScript.Precedence

variable {level tighter : Precedence}

theorem rank_le (level : Precedence) : level.rank ≤ 4 := by
  cases level <;> decide

theorem rank_injective (same : level.rank = tighter.rank) :
    level = tighter := by
  cases level <;> cases tighter <;> first | rfl | cases same

theorem rank_of_tighter? (isTighter : level.tighter? = some tighter) :
    tighter.rank = level.rank + 1 := by
  cases level <;> cases isTighter <;> rfl

theorem rank_of_tightest (isTightest : level.tighter? = none) :
    level.rank = 4 := by
  cases level <;> cases isTightest
  rfl

end EffectScript.Precedence

namespace EffectScript.Cursor

variable {cursor after : Cursor} {kind : TokenKind} {mark : Mark}

theorem length_advance_lt (peeked : cursor.peek? = some kind) :
    cursor.advance.rest.length < cursor.rest.length := by
  obtain ⟨token, rest_eq, _⟩ := rest_eq_of_peek? peeked
  simp [rest_eq]

theorem length_lt_of_accept? (accepted : cursor.accept? mark = some after) :
    after.rest.length < cursor.rest.length := by
  obtain ⟨peeked, rfl⟩ := peek?_of_accept? accepted
  exact length_advance_lt peeked

theorem length_lt_of_expect (expected : cursor.expect mark = .ok after) :
    after.rest.length < cursor.rest.length := by
  obtain ⟨peeked, rfl⟩ := peek?_of_expect expected
  exact length_advance_lt peeked

theorem length_lt_of_identifier {name : String}
    (read : cursor.identifier = .ok (name, after)) :
    after.rest.length < cursor.rest.length := by
  unfold identifier at read
  split at read
  next peeked =>
    cases read
    exact length_advance_lt peeked
  next => cases read

theorem length_lt_of_operator? {level : Precedence}
    {op : BinaryOp}
    (found : cursor.operator? level = some (op, after)) :
    after.rest.length < cursor.rest.length := by
  obtain ⟨peeked, rfl⟩ := peek?_of_operator? found
  exact length_advance_lt peeked

theorem length_advance_lt_of_seesCall (seen : cursor.seesCall) :
    cursor.advance.rest.length < cursor.rest.length := by
  simp only [seesCall, Bool.and_eq_true] at seen
  exact length_advance_lt (of_decide_eq_true seen.1)

end EffectScript.Cursor

namespace EffectScript.Parser

variable {α β : Type} {cursor after : Cursor} {bound other : Nat}

/-- Reading an expression moves the cursor. -/
theorem Spends.length_lt
    {parsed : Except SourceError (Expr × Cursor)} {result : Expr}
    (spends : Spends cursor Expr.words parsed)
    (read : parsed = .ok (result, after)) :
    after.rest.length < cursor.rest.length :=
  (spends result after read).length_lt result.begins.essential_ne_nil

/-- Reading a block moves the cursor. -/
theorem length_lt_of_block {body : Block}
    (read : block bound cursor = .ok (body, after)) :
    after.rest.length < cursor.rest.length :=
  (spends_block bound cursor body after read).length_lt
    (Expr.block body).begins.essential_ne_nil

/-! ## A bound that is large enough -/


/-- The computation does not run into its bound. -/
def Settles (parsed : Except SourceError α) : Prop :=
  ∀ error, parsed = .error error → ¬ TooDeep error

namespace Settles

theorem ok {value : α} : Settles (.ok value) := by
  rintro _ ⟨⟩

theorem refuse {wanted : Expectation} :
    Settles (.error (cursor.refuse wanted) : Except _ α) := by
  rintro _ ⟨⟩ ⟨position, impossible⟩
  cases impossible

theorem bind {first : Except SourceError α}
    {rest : α → Except SourceError β}
    (settles : Settles first)
    (later : ∀ value, first = .ok value → Settles (rest value)) :
    Settles (first >>= rest) := by
  cases first with
  | ok value => exact later value rfl
  | error error =>
      rintro _ ⟨⟩
      exact settles error rfl

end Settles

theorem settles_expect (cursor : Cursor) (mark : Mark) :
    Settles (cursor.expect mark) := by
  unfold Cursor.expect
  split
  · exact .ok
  · exact .refuse

theorem settles_identifier (cursor : Cursor) : Settles cursor.identifier := by
  unfold Cursor.identifier
  split
  · exact .ok
  · exact .refuse

theorem settles_moreParameters
    (cursor : Cursor)
    (enough : 16 * cursor.rest.length + 1 ≤ bound) :
    Settles (moreParameters bound cursor) := by
  induction bound generalizing cursor with
  | zero => omega
  | succ bound inner =>
      simp only [moreParameters, plain, pure_bind]
      split
      next afterComma accepted =>
        have comma := Cursor.length_lt_of_accept? accepted
        refine .bind (settles_identifier _) ?_
        rintro ⟨name, afterName⟩ nameRead
        have shorter := Cursor.length_lt_of_identifier nameRead
        exact .bind (inner afterName (by omega)) fun names _ => .ok
      next => exact .bind (settles_expect _ _) fun after _ => .ok

theorem settles_parameters
    (cursor : Cursor)
    (enough : 16 * cursor.rest.length + 1 ≤ bound) :
    Settles (parameters bound cursor) := by
  simp only [parameters, plain, pure_bind]
  split
  · exact .ok
  · refine .bind (settles_identifier _) ?_
    rintro ⟨name, afterName⟩ nameRead
    have shorter := Cursor.length_lt_of_identifier nameRead
    exact .bind (settles_moreParameters afterName (by omega)) fun names _ => .ok

mutual

theorem settles_expression : {bound : Nat} → (cursor : Cursor) →
    16 * cursor.rest.length + 13 ≤ bound → Settles (expression bound cursor)
  | bound + 1, cursor, enough => by
      simp only [expression, plain, pure_bind]
      have levelEnough : 16 * cursor.rest.length + 14 ≤ bound +
          2 * Precedence.equality.rank := by
        simp only [Precedence.rank]
        omega
      refine .bind (settles_binary .equality cursor levelEnough) ?_
      rintro ⟨target, after⟩ targetRead
      have shorter :=
        (spends_binary bound .equality cursor).length_lt targetRead
      dsimp only
      split
      next afterMark accepted =>
        have mark := Cursor.length_lt_of_accept? accepted
        exact .bind (settles_expression afterMark (by omega)) fun value _ => .ok
      next => exact .ok

theorem settles_binary :
    {bound : Nat} → (level : Precedence) → (cursor : Cursor) →
      16 * cursor.rest.length + 14 ≤ bound + 2 * level.rank →
      Settles (binary bound level cursor)
  | 0, level, cursor, enough => absurd level.rank_le (by omega)
  | bound + 1, level, cursor, enough => by
      simp only [binary]
      refine .bind (settles_operand level cursor (by omega)) ?_
      rintro ⟨left, after⟩ leftRead
      have shorter := (spends_operand bound level cursor).length_lt leftRead
      have tightest := level.rank_le
      exact settles_moreOperands level left after (by omega)

theorem settles_moreOperands :
    {bound : Nat} → (level : Precedence) → (left : Expr) →
      (cursor : Cursor) → 16 * cursor.rest.length + 1 ≤ bound →
      Settles (moreOperands bound level left cursor)
  | bound + 1, level, left, cursor, enough => by
      simp only [moreOperands, plain, pure_bind]
      split
      next op afterOp found =>
        have mark := Cursor.length_lt_of_operator? found
        refine .bind (settles_operand level afterOp (by omega)) ?_
        rintro ⟨right, after⟩ rightRead
        have shorter := (spends_operand bound level afterOp).length_lt rightRead
        exact settles_moreOperands level _ after (by omega)
      next => exact .ok

theorem settles_operand :
    {bound : Nat} → (level : Precedence) → (cursor : Cursor) →
      16 * cursor.rest.length + 13 ≤ bound + 2 * level.rank →
      Settles (operand bound level cursor)
  | 0, level, cursor, enough => absurd level.rank_le (by omega)
  | bound + 1, level, cursor, enough => by
      simp only [operand]
      split
      next tighter isTighter =>
        have higher := Precedence.rank_of_tighter? isTighter
        exact settles_binary tighter cursor (by omega)
      next isTightest =>
        have tightest := Precedence.rank_of_tightest isTightest
        exact settles_unary cursor (by omega)

theorem settles_unary : {bound : Nat} → (cursor : Cursor) →
    16 * cursor.rest.length + 4 ≤ bound → Settles (unary bound cursor)
  | bound + 1, cursor, enough => by
      simp only [unary, plain, pure_bind]
      split
      next mark peeked =>
        split
        · have shorter := Cursor.length_advance_lt peeked
          exact .bind (settles_unary cursor.advance (by omega))
            fun operand _ => .ok
        · exact settles_call cursor (by omega)
      next => exact settles_call cursor (by omega)

theorem settles_call : {bound : Nat} → (cursor : Cursor) →
    16 * cursor.rest.length + 3 ≤ bound → Settles (call bound cursor)
  | bound + 1, cursor, enough => by
      simp only [call]
      refine .bind (settles_primary cursor (by omega)) ?_
      rintro ⟨callee, after⟩ calleeRead
      have shorter := (spends_primary bound cursor).length_lt calleeRead
      exact settles_moreCalls callee after (by omega)

theorem settles_moreCalls :
    {bound : Nat} → (callee : Expr) → (cursor : Cursor) →
      16 * cursor.rest.length + 1 ≤ bound →
      Settles (moreCalls bound callee cursor)
  | bound + 1, callee, cursor, enough => by
      simp only [moreCalls, plain, pure_bind]
      split
      next seen =>
        have shorter := Cursor.length_advance_lt_of_seesCall seen
        refine .bind (settles_arguments cursor.advance (by omega)) ?_
        rintro ⟨arguments, after⟩ argumentsRead
        have behind :=
          (spends_arguments bound cursor.advance _ _ argumentsRead).length_le
        exact settles_moreCalls _ after (by omega)
      next => exact .ok

theorem settles_arguments : {bound : Nat} → (cursor : Cursor) →
    16 * cursor.rest.length + 14 ≤ bound → Settles (arguments bound cursor)
  | bound + 1, cursor, enough => by
      simp only [arguments, plain, pure_bind]
      split
      · exact .ok
      · refine .bind (settles_expression cursor (by omega)) ?_
        rintro ⟨first, after⟩ firstRead
        have shorter := (spends_expression bound cursor).length_lt firstRead
        exact .bind (settles_moreArguments after (by omega)) fun others _ => .ok

theorem settles_moreArguments : {bound : Nat} → (cursor : Cursor) →
    16 * cursor.rest.length + 1 ≤ bound → Settles (moreArguments bound cursor)
  | bound + 1, cursor, enough => by
      simp only [moreArguments, plain, pure_bind]
      split
      next afterComma accepted =>
        have comma := Cursor.length_lt_of_accept? accepted
        refine .bind (settles_expression afterComma (by omega)) ?_
        rintro ⟨first, after⟩ firstRead
        have shorter := (spends_expression bound afterComma).length_lt firstRead
        exact .bind (settles_moreArguments after (by omega)) fun others _ => .ok
      next => exact .bind (settles_expect _ _) fun after _ => .ok

theorem settles_primary : {bound : Nat} → (cursor : Cursor) →
    16 * cursor.rest.length + 2 ≤ bound → Settles (primary bound cursor)
  | bound + 1, cursor, enough => by
      simp only [primary, plain, pure_bind]
      split
      · exact .ok
      next peeked =>
        have shorter := Cursor.length_advance_lt peeked
        refine .bind (settles_expression cursor.advance (by omega))
          fun inner _ => ?_
        exact .bind (settles_expect _ _) fun after _ => .ok
      · exact .bind (settles_block cursor (by omega)) fun body _ => .ok
      next peeked => exact settles_branch cursor peeked (by omega)
      next peeked =>
        have keyword := Cursor.length_advance_lt peeked
        refine .bind (settles_expression cursor.advance (by omega)) ?_
        rintro ⟨condition, after⟩ conditionRead
        have shorter := (spends_expression bound cursor.advance).length_lt
          conditionRead
        exact .bind (settles_block after (by omega)) fun body _ => .ok
      next peeked =>
        have keyword := Cursor.length_advance_lt peeked
        refine .bind (settles_identifier _) ?_
        rintro ⟨name, afterName⟩ nameRead
        have named := Cursor.length_lt_of_identifier nameRead
        dsimp only
        refine .bind (settles_expect _ _) fun afterParen opened => ?_
        have paren := Cursor.length_lt_of_expect opened
        refine .bind (settles_parameters afterParen (by omega)) ?_
        rintro ⟨names, after⟩ namesRead
        have behind :=
          (spends_parameters bound afterParen _ _ namesRead).length_le
        exact .bind (settles_block after (by omega)) fun body _ => .ok
      next peeked =>
        have keyword := Cursor.length_advance_lt peeked
        refine .bind (settles_block cursor.advance (by omega)) ?_
        rintro ⟨body, after⟩ bodyRead
        have shorter := length_lt_of_block bodyRead
        refine .bind (settles_clauses after (by omega)) ?_
        rintro ⟨clauses, last⟩ _
        dsimp only
        split
        · exact .refuse
        · exact .ok
      next peeked =>
        have keyword := Cursor.length_advance_lt peeked
        refine .bind (settles_identifier _) ?_
        rintro ⟨effect, afterEffect⟩ effectRead
        have named := Cursor.length_lt_of_identifier effectRead
        dsimp only
        split
        next seen =>
          have paren := Cursor.length_advance_lt_of_seesCall seen
          split
          · exact .ok
          · refine .bind (settles_expression afterEffect.advance (by omega))
              fun payload _ => ?_
            exact .bind (settles_expect _ _) fun after _ => .ok
        next => exact .ok
      next =>
        split
        · exact .ok
        · exact .refuse
      · exact .refuse

theorem settles_branch : {bound : Nat} → (cursor : Cursor) →
    cursor.peek? = some (.keyword .branch) →
    16 * cursor.rest.length + 1 ≤ bound →
    Settles (branch bound cursor)
  | bound + 1, cursor, peeked, enough => by
      simp only [branch, plain, pure_bind]
      have keyword := Cursor.length_advance_lt peeked
      refine .bind (settles_expression cursor.advance (by omega)) ?_
      rintro ⟨condition, afterCondition⟩ conditionRead
      have tested := (spends_expression bound cursor.advance).length_lt
        conditionRead
      dsimp only
      refine .bind (settles_block afterCondition (by omega)) ?_
      rintro ⟨consequence, after⟩ bodyRead
      have shorter := length_lt_of_block bodyRead
      dsimp only
      split
      next otherwise =>
        have behind := Cursor.length_advance_lt otherwise
        split
        next again =>
          exact .bind (settles_branch after.advance again (by omega))
            fun alternative _ => .ok
        next =>
          exact .bind (settles_block after.advance (by omega))
            fun alternative _ => .ok
      next => exact .ok

theorem settles_clauses : {bound : Nat} → (cursor : Cursor) →
    16 * cursor.rest.length + 1 ≤ bound → Settles (clauses bound cursor)
  | bound + 1, cursor, enough => by
      simp only [clauses, plain, pure_bind]
      split
      next peeked =>
        have keyword := Cursor.length_advance_lt peeked
        refine .bind (settles_identifier _) ?_
        rintro ⟨effect, afterEffect⟩ effectRead
        have named := Cursor.length_lt_of_identifier effectRead
        dsimp only
        refine .bind (settles_expect _ _) fun afterOpening opened => ?_
        have opening := Cursor.length_lt_of_expect opened
        refine .bind (settles_identifier _) ?_
        rintro ⟨parameter, afterParameter⟩ parameterRead
        have received := Cursor.length_lt_of_identifier parameterRead
        dsimp only
        refine .bind (settles_expect _ _) fun afterClosing closed => ?_
        have closing := Cursor.length_lt_of_expect closed
        refine .bind (settles_block afterClosing (by omega)) ?_
        rintro ⟨body, after⟩ bodyRead
        have shorter := length_lt_of_block bodyRead
        exact .bind (settles_clauses after (by omega)) fun others _ => .ok
      next => exact .ok

theorem settles_block : {bound : Nat} → (cursor : Cursor) →
    16 * cursor.rest.length + 1 ≤ bound → Settles (block bound cursor)
  | bound + 1, cursor, enough => by
      simp only [block, plain, pure_bind]
      refine .bind (settles_expect _ _) fun afterOpening opened => ?_
      have opening := Cursor.length_lt_of_expect opened
      have skipped := (Cursor.reads_skipSemicolons afterOpening).length_le
      refine .bind
        (settles_sequence true afterOpening.skipSemicolons (by omega))
        fun expressions _ => ?_
      exact .bind (settles_expect _ _) fun after _ => .ok

theorem settles_sequence : {bound : Nat} → (braced : Bool) → (cursor : Cursor) →
    16 * cursor.rest.length + 14 ≤ bound →
    Settles (sequence bound braced cursor)
  | bound + 1, braced, cursor, enough => by
      simp only [sequence, plain, pure_bind]
      split
      · exact .ok
      · refine .bind (settles_expression cursor (by omega)) ?_
        rintro ⟨first, after⟩ firstRead
        have shorter := (spends_expression bound cursor).length_lt firstRead
        have skipped := (Cursor.reads_skipSemicolons after).length_le
        exact .bind (settles_sequence braced after.skipSemicolons (by omega))
          fun others _ => .ok

end

/-! ## Parser functions without a bound -/

/-- What a parser function gives with a bound that is large enough. -/
def fully
    (parser : Nat → Cursor → Except SourceError (α × Cursor))
    (cursor : Cursor) :
    Except SourceError (α × Cursor) :=
  parser (depthFor cursor.rest.length) cursor

/-- The bound can be counted down once. -/
theorem fully_eq
    (parser : Nat → Cursor → Except SourceError (α × Cursor))
    (cursor : Cursor) :
    fully parser cursor = parser (16 * cursor.rest.length + 15 + 1) cursor :=
      rfl

theorem eq_of_outlasts {first second : Except SourceError α}
    (outlasts : Outlasts first second)
    (settles : Settles first) :
    first = second := by
  cases first with
  | ok value =>
      obtain ⟨_, rfl, rfl⟩ := outlasts
      rfl
  | error error =>
      rcases outlasts with tooDeep | rfl
      · exact absurd tooDeep (settles error rfl)
      · rfl

/-- Any bound that is large enough gives the same. -/
theorem eq_fully
    {parser : Nat → Cursor → Except SourceError (α × Cursor)} {cost : Nat}
    (enough : 16 * cursor.rest.length + cost ≤ bound)
    (small : cost ≤ 16)
    (settles : ∀ {bound}, 16 * cursor.rest.length + cost ≤ bound →
      Settles (parser bound cursor))
    (outlasts : ∀ {bound other}, bound ≤ other →
      Outlasts (parser bound cursor) (parser other cursor)) :
    parser bound cursor = fully parser cursor := by
  have depth : depthFor cursor.rest.length = 16 * cursor.rest.length + 16 := rfl
  unfold fully
  rcases Nat.le_total bound (depthFor cursor.rest.length) with less | more
  · exact eq_of_outlasts (outlasts less) (settles enough)
  · exact (eq_of_outlasts (outlasts more) (settles (by omega))).symm

theorem expression_eq_fully (enough : 16 * cursor.rest.length + 13 ≤ bound) :
    expression bound cursor = fully expression cursor :=
  eq_fully enough (by decide) (settles_expression cursor)
    (outlasts_expression · cursor)

theorem binary_eq_fully {level : Precedence}
    (enough : 16 * cursor.rest.length + 12 ≤ bound) :
    binary bound level cursor = fully (binary · level) cursor := by
  have least : 1 ≤ level.rank := by cases level <;> decide
  exact eq_fully enough (by decide)
    (fun enough => settles_binary level cursor (by omega))
    (outlasts_binary · level cursor)

theorem moreOperands_eq_fully {level : Precedence}
    {left : Expr}
    (enough : 16 * cursor.rest.length + 1 ≤ bound) :
    moreOperands bound level left cursor =
      fully (moreOperands · level left) cursor :=
  eq_fully enough (by decide) (settles_moreOperands level left cursor)
    (outlasts_moreOperands · level left cursor)

theorem operand_eq_fully {level : Precedence}
    (enough : 16 * cursor.rest.length + 11 ≤ bound) :
    operand bound level cursor = fully (operand · level) cursor := by
  have least : 1 ≤ level.rank := by cases level <;> decide
  exact eq_fully enough (by decide)
    (fun enough => settles_operand level cursor (by omega))
    (outlasts_operand · level cursor)

theorem unary_eq_fully (enough : 16 * cursor.rest.length + 4 ≤ bound) :
    unary bound cursor = fully unary cursor :=
  eq_fully enough (by decide) (settles_unary cursor) (outlasts_unary · cursor)

theorem call_eq_fully (enough : 16 * cursor.rest.length + 3 ≤ bound) :
    call bound cursor = fully call cursor :=
  eq_fully enough (by decide) (settles_call cursor) (outlasts_call · cursor)

theorem primary_eq_fully (enough : 16 * cursor.rest.length + 2 ≤ bound) :
    primary bound cursor = fully primary cursor :=
  eq_fully enough (by decide) (settles_primary cursor)
    (outlasts_primary · cursor)

theorem moreCalls_eq_fully {callee : Expr}
    (enough : 16 * cursor.rest.length + 1 ≤ bound) :
    moreCalls bound callee cursor = fully (moreCalls · callee) cursor :=
  eq_fully enough (by decide) (settles_moreCalls callee cursor)
    (outlasts_moreCalls · callee cursor)

theorem arguments_eq_fully (enough : 16 * cursor.rest.length + 14 ≤ bound) :
    arguments bound cursor = fully arguments cursor :=
  eq_fully enough (by decide) (settles_arguments cursor)
    (outlasts_arguments · cursor)

theorem moreArguments_eq_fully (enough : 16 * cursor.rest.length + 1 ≤ bound) :
    moreArguments bound cursor = fully moreArguments cursor :=
  eq_fully enough (by decide) (settles_moreArguments cursor)
    (outlasts_moreArguments · cursor)

theorem moreParameters_eq_fully (enough : 16 * cursor.rest.length + 1 ≤ bound) :
    moreParameters bound cursor = fully moreParameters cursor :=
  eq_fully enough (by decide) (settles_moreParameters cursor)
    (outlasts_moreParameters · cursor)

theorem parameters_eq_fully (enough : 16 * cursor.rest.length + 1 ≤ bound) :
    parameters bound cursor = fully parameters cursor :=
  eq_fully enough (by decide) (settles_parameters cursor)
    (outlasts_parameters · cursor)

theorem branch_eq_fully
    (peeked : cursor.peek? = some (.keyword .branch))
    (enough : 16 * cursor.rest.length + 1 ≤ bound) :
    branch bound cursor = fully branch cursor :=
  eq_fully enough (by decide) (settles_branch cursor peeked)
    (outlasts_branch · cursor)

theorem clauses_eq_fully (enough : 16 * cursor.rest.length + 1 ≤ bound) :
    clauses bound cursor = fully clauses cursor :=
  eq_fully enough (by decide) (settles_clauses cursor)
    (outlasts_clauses · cursor)

theorem block_eq_fully (enough : 16 * cursor.rest.length + 1 ≤ bound) :
    block bound cursor = fully block cursor :=
  eq_fully enough (by decide) (settles_block cursor) (outlasts_block · cursor)

theorem sequence_eq_fully {braced : Bool}
    (enough : 16 * cursor.rest.length + 14 ≤ bound) :
    sequence bound braced cursor = fully (sequence · braced) cursor :=
  eq_fully enough (by decide) (settles_sequence braced cursor)
    (outlasts_sequence · braced cursor)

theorem fully_expression (cursor : Cursor) :
    fully expression cursor = (do
      let (target, afterTarget) ← fully (binary · .equality) cursor
      match afterTarget.accept? .assign with
      | some afterMark => do
          let (value, afterValue) ← fully expression afterMark
          return (.assign target value target.position, afterValue)
      | none => return (target, afterTarget)) := by
  rw [fully_eq expression, expression]
  simp only [plain, pure_bind]
  refine Outcome.bind_congr (binary_eq_fully (by omega)) ?_
  rintro ⟨target, after⟩ targetRead
  have shorter := (spends_binary _ _ cursor).length_lt targetRead
  dsimp only
  cases accepted : after.accept? .assign with
  | none => rfl
  | some afterMark =>
      have mark := Cursor.length_lt_of_accept? accepted
      exact Outcome.bind_congr (expression_eq_fully (by omega)) fun _ _ => rfl

theorem fully_binary (level : Precedence) (cursor : Cursor) :
    fully (binary · level) cursor = (do
      let (left, afterLeft) ← fully (operand · level) cursor
      fully (moreOperands · level left) afterLeft) := by
  rw [fully_eq (binary · level), binary]
  refine Outcome.bind_congr (operand_eq_fully (by omega)) ?_
  rintro ⟨left, after⟩ leftRead
  have shorter := (spends_operand _ level cursor).length_lt leftRead
  exact moreOperands_eq_fully (by omega)

theorem fully_moreOperands
    (level : Precedence) (left : Expr) (cursor : Cursor) :
    fully (moreOperands · level left) cursor = match cursor.operator? level with
      | some (op, afterOp) => do
          let (right, afterRight) ← fully (operand · level) afterOp
          fully (moreOperands · level (.binary op left right left.position))
            afterRight
      | none => .ok (left, cursor) := by
  rw [fully_eq (moreOperands · level left), moreOperands]
  simp only [plain, pure_bind]
  cases found : cursor.operator? level with
  | none => rfl
  | some read =>
      obtain ⟨op, afterOp⟩ := read
      have mark := Cursor.length_lt_of_operator? found
      refine Outcome.bind_congr (operand_eq_fully (by omega)) ?_
      rintro ⟨right, after⟩ rightRead
      have shorter := (spends_operand _ level afterOp).length_lt rightRead
      dsimp only
      exact moreOperands_eq_fully (by omega)

theorem fully_operand (level : Precedence) (cursor : Cursor) :
    fully (operand · level) cursor =
      match level.tighter? with
      | some tighter => fully (binary · tighter) cursor
      | none => fully unary cursor := by
  rw [fully_eq (operand · level), operand]
  cases level.tighter? with
  | none => exact unary_eq_fully (by omega)
  | some tighter => exact binary_eq_fully (by omega)

theorem fully_unary_mark {op : UnaryOp}
    (peeked : cursor.peek? = some (.mark op.mark)) :
    fully unary cursor = (do
      let (inner, afterInner) ← fully unary cursor.advance
      return (.unary op inner cursor.position, afterInner)) := by
  have shorter := Cursor.length_advance_lt peeked
  have read : UnaryOp.ofMark? op.mark = some op :=
    UnaryOp.ofMark?_eq_some_iff.2 rfl
  rw [fully_eq unary, unary]
  simp only [plain, pure_bind, peeked, read]
  exact Outcome.bind_congr (unary_eq_fully (by omega)) fun _ _ => rfl

theorem fully_unary_call
    (plain : ∀ op : UnaryOp, cursor.peek? ≠ some (.mark op.mark)) :
    fully unary cursor = fully call cursor := by
  rw [fully_eq unary, unary]
  split
  next mark peeked =>
    split
    next op read =>
      rw [← UnaryOp.ofMark?_eq_some_iff.1 read] at peeked
      exact absurd peeked (plain op)
    next => exact call_eq_fully (by omega)
  next => exact call_eq_fully (by omega)

theorem fully_call (cursor : Cursor) :
    fully call cursor = (do
      let (callee, afterCallee) ← fully primary cursor
      fully (moreCalls · callee) afterCallee) := by
  rw [fully_eq call, call]
  refine Outcome.bind_congr (primary_eq_fully (by omega)) ?_
  rintro ⟨callee, after⟩ calleeRead
  have shorter := (spends_primary _ cursor).length_lt calleeRead
  exact moreCalls_eq_fully (by omega)

theorem fully_moreCalls (callee : Expr) (cursor : Cursor) :
    fully (moreCalls · callee) cursor =
      if cursor.seesCall then do
        let (arguments, afterArguments) ← fully arguments cursor.advance
        fully (moreCalls · (.call callee arguments callee.position))
          afterArguments
      else .ok (callee, cursor) := by
  rw [fully_eq (moreCalls · callee), moreCalls]
  simp only [plain, pure_bind]
  split
  next seen =>
    have paren := Cursor.length_advance_lt_of_seesCall seen
    refine Outcome.bind_congr (arguments_eq_fully (by omega)) ?_
    rintro ⟨arguments, after⟩ read
    have behind := (spends_arguments _ cursor.advance _ _ read).length_le
    dsimp only
    exact moreCalls_eq_fully (by omega)
  next => rfl

theorem fully_arguments (cursor : Cursor) :
    fully arguments cursor =
      match cursor.accept? .rightParen with
      | some afterParen => .ok ([], afterParen)
      | none => do
          let (first, afterFirst) ← fully expression cursor
          let (others, afterOthers) ← fully moreArguments afterFirst
          return (first :: others, afterOthers) := by
  rw [fully_eq arguments, arguments]
  simp only [plain, pure_bind]
  cases cursor.accept? .rightParen with
  | some afterParen => rfl
  | none =>
      refine Outcome.bind_congr (expression_eq_fully (by omega)) ?_
      rintro ⟨first, after⟩ firstRead
      have shorter := (spends_expression _ cursor).length_lt firstRead
      dsimp only
      exact Outcome.bind_congr (moreArguments_eq_fully (by omega))
        fun _ _ => rfl

theorem fully_moreArguments (cursor : Cursor) :
    fully moreArguments cursor =
      match cursor.accept? .comma with
      | some afterComma => do
          let (first, afterFirst) ← fully expression afterComma
          let (others, afterOthers) ← fully moreArguments afterFirst
          return (first :: others, afterOthers)
      | none => do
          let afterParen ← cursor.expect .rightParen
          return ([], afterParen) := by
  rw [fully_eq moreArguments, moreArguments]
  simp only [plain, pure_bind]
  cases accepted : cursor.accept? .comma with
  | none => rfl
  | some afterComma =>
      have comma := Cursor.length_lt_of_accept? accepted
      refine Outcome.bind_congr (expression_eq_fully (by omega)) ?_
      rintro ⟨first, after⟩ firstRead
      have shorter := (spends_expression _ afterComma).length_lt firstRead
      dsimp only
      exact Outcome.bind_congr (moreArguments_eq_fully (by omega))
        fun _ _ => rfl

theorem fully_moreParameters (cursor : Cursor) :
    fully moreParameters cursor =
      match cursor.accept? .comma with
      | some afterComma => do
          let (name, afterName) ← afterComma.identifier
          let (names, afterNames) ← fully moreParameters afterName
          return (name :: names, afterNames)
      | none => do
          let afterParen ← cursor.expect .rightParen
          return ([], afterParen) := by
  rw [fully_eq moreParameters, moreParameters]
  simp only [plain, pure_bind]
  cases accepted : cursor.accept? .comma with
  | none => rfl
  | some afterComma =>
      have comma := Cursor.length_lt_of_accept? accepted
      refine Outcome.bind_congr rfl ?_
      rintro ⟨name, after⟩ nameRead
      have shorter := Cursor.length_lt_of_identifier nameRead
      dsimp only
      exact Outcome.bind_congr (moreParameters_eq_fully (by omega))
        fun _ _ => rfl

theorem fully_parameters (cursor : Cursor) :
    fully parameters cursor =
      match cursor.accept? .rightParen with
      | some afterParen => .ok ([], afterParen)
      | none => do
          let (name, afterName) ← cursor.identifier
          let (names, afterNames) ← fully moreParameters afterName
          return (name :: names, afterNames) := by
  rw [fully_eq parameters, parameters]
  simp only [plain, pure_bind]
  cases cursor.accept? .rightParen with
  | some afterParen => rfl
  | none =>
      refine Outcome.bind_congr rfl ?_
      rintro ⟨name, after⟩ nameRead
      have shorter := Cursor.length_lt_of_identifier nameRead
      dsimp only
      exact Outcome.bind_congr (moreParameters_eq_fully (by omega))
        fun _ _ => rfl

theorem fully_primary_ident {name : String}
    (peeked : cursor.peek? = some (.ident name)) :
    fully primary cursor =
      .ok (.ident name cursor.position, cursor.advance) := by
  rw [fully_eq primary, primary]
  simp only [plain, pure_bind, peeked]
  rfl

theorem fully_primary_literal {value : Literal}
    (peeked : cursor.peek? = some value.token) :
    fully primary cursor =
      .ok (.literal value cursor.position, cursor.advance) := by
  have known := Literal.ofToken?_token value
  rw [fully_eq primary, primary]
  simp only [plain, pure_bind]
  cases value with
  | bool value =>
      cases value
      all_goals
        simp only [Literal.token] at known
        simp only [peeked, Literal.token, known]
        rfl
  | _ =>
      simp only [Literal.token] at known
      simp only [peeked, Literal.token, known]
      rfl

theorem fully_primary_group (peeked : cursor.peek? = some (.mark .leftParen)) :
    fully primary cursor = (do
      let (inner, afterInner) ← fully expression cursor.advance
      let afterParen ← afterInner.expect .rightParen
      return (inner, afterParen)) := by
  have shorter := Cursor.length_advance_lt peeked
  rw [fully_eq primary, primary]
  simp only [plain, pure_bind, peeked]
  exact Outcome.bind_congr (expression_eq_fully (by omega)) fun _ _ => rfl

theorem fully_primary_block (peeked : cursor.peek? = some (.mark .leftBrace)) :
    fully primary cursor = (do
      let (body, afterBody) ← fully block cursor
      return (.block body, afterBody)) := by
  rw [fully_eq primary, primary]
  simp only [peeked]
  exact Outcome.bind_congr (block_eq_fully (by omega)) fun _ _ => rfl

theorem fully_primary_branch (peeked : cursor.peek? = some (.keyword .branch)) :
    fully primary cursor = fully branch cursor := by
  rw [fully_eq primary, primary]
  simp only [peeked]
  exact branch_eq_fully peeked (by omega)

theorem fully_primary_loop (peeked : cursor.peek? = some (.keyword .loop)) :
    fully primary cursor = (do
      let (condition, afterCondition) ← fully expression cursor.advance
      let (body, afterBody) ← fully block afterCondition
      return (.loop condition body cursor.position, afterBody)) := by
  have keyword := Cursor.length_advance_lt peeked
  rw [fully_eq primary, primary]
  simp only [plain, pure_bind, peeked]
  refine Outcome.bind_congr (expression_eq_fully (by omega)) ?_
  rintro ⟨condition, after⟩ read
  have shorter := (spends_expression _ cursor.advance).length_lt read
  dsimp only
  exact Outcome.bind_congr (block_eq_fully (by omega)) fun _ _ => rfl

theorem fully_primary_define (peeked : cursor.peek? = some (.keyword .define)) :
    fully primary cursor = (do
      let (name, afterName) ← cursor.advance.identifier
      let afterParen ← afterName.expect .leftParen
      let (names, afterNames) ← fully parameters afterParen
      let (body, afterBody) ← fully block afterNames
      return (.define name names body cursor.position, afterBody)) := by
  have keyword := Cursor.length_advance_lt peeked
  rw [fully_eq primary, primary]
  simp only [plain, pure_bind, peeked]
  refine Outcome.bind_congr rfl ?_
  rintro ⟨name, afterName⟩ nameRead
  have named := Cursor.length_lt_of_identifier nameRead
  dsimp only
  refine Outcome.bind_congr rfl fun afterParen opened => ?_
  have opening := Cursor.length_lt_of_expect opened
  refine Outcome.bind_congr (parameters_eq_fully (by omega)) ?_
  rintro ⟨names, after⟩ namesRead
  have behind := (spends_parameters _ afterParen _ _ namesRead).length_le
  dsimp only
  exact Outcome.bind_congr (block_eq_fully (by omega)) fun _ _ => rfl

theorem fully_primary_attempt
    (peeked : cursor.peek? = some (.keyword .attempt)) :
    fully primary cursor = (do
      let (body, afterBody) ← fully block cursor.advance
      let (clauses, afterClauses) ← fully clauses afterBody
      if clauses.isEmpty then .error (afterClauses.refuse .handleClause)
      else return (.attempt body clauses cursor.position, afterClauses)) := by
  have keyword := Cursor.length_advance_lt peeked
  rw [fully_eq primary, primary]
  simp only [plain, pure_bind, peeked]
  refine Outcome.bind_congr (block_eq_fully (by omega)) ?_
  rintro ⟨body, after⟩ bodyRead
  have shorter := length_lt_of_block bodyRead
  dsimp only
  exact Outcome.bind_congr (clauses_eq_fully (by omega)) fun _ _ => rfl

theorem fully_primary_perform
    (peeked : cursor.peek? = some (.keyword .perform)) :
    fully primary cursor = (do
      let (effect, afterEffect) ← cursor.advance.identifier
      if afterEffect.seesCall then
        match afterEffect.advance.accept? .rightParen with
        | some afterParen =>
            return (.perform effect none cursor.position, afterParen)
        | none => do
            let (payload, afterPayload) ← fully expression afterEffect.advance
            let afterParen ← afterPayload.expect .rightParen
            return (.perform effect (some payload) cursor.position, afterParen)
      else return (.perform effect none cursor.position, afterEffect)) := by
  have keyword := Cursor.length_advance_lt peeked
  rw [fully_eq primary, primary]
  simp only [plain, pure_bind, peeked]
  refine Outcome.bind_congr rfl ?_
  rintro ⟨effect, afterEffect⟩ effectRead
  have named := Cursor.length_lt_of_identifier effectRead
  dsimp only
  by_cases seen : afterEffect.seesCall
  · have paren := Cursor.length_advance_lt_of_seesCall seen
    simp only [seen, if_true]
    cases afterEffect.advance.accept? .rightParen with
    | some afterParen => rfl
    | none =>
        exact Outcome.bind_congr (expression_eq_fully (by omega)) fun _ _ => rfl
  · simp only [seen, Bool.false_eq_true, if_false]

theorem fully_branch (peeked : cursor.peek? = some (.keyword .branch)) :
    fully branch cursor = (do
      let (condition, afterCondition) ← fully expression cursor.advance
      let (consequence, afterConsequence) ← fully block afterCondition
      if afterConsequence.peek? = some (.keyword .otherwise) then
        if afterConsequence.advance.peek? = some (.keyword .branch) then do
          let (alternative, afterAlternative) ← fully branch
            afterConsequence.advance
          return (.branch condition consequence (some alternative)
            cursor.position,
            afterAlternative)
        else do
          let (alternative, afterAlternative) ← fully block
            afterConsequence.advance
          return (.branch condition consequence (some (.block alternative))
            cursor.position,
            afterAlternative)
      else return (.branch condition consequence none cursor.position,
        afterConsequence)) := by
  have keyword := Cursor.length_advance_lt peeked
  rw [fully_eq branch, branch]
  simp only [plain, pure_bind]
  refine Outcome.bind_congr (expression_eq_fully (by omega)) ?_
  rintro ⟨condition, afterCondition⟩ read
  have tested := (spends_expression _ cursor.advance).length_lt read
  dsimp only
  refine Outcome.bind_congr (block_eq_fully (by omega)) ?_
  rintro ⟨consequence, after⟩ bodyRead
  have shorter := length_lt_of_block bodyRead
  dsimp only
  by_cases otherwise : after.peek? = some (.keyword .otherwise)
  · have behind := Cursor.length_advance_lt otherwise
    simp only [otherwise, if_true]
    by_cases again : after.advance.peek? = some (.keyword .branch)
    · simp only [again, if_true]
      exact Outcome.bind_congr (branch_eq_fully again (by omega)) fun _ _ => rfl
    · simp only [again, if_false]
      exact Outcome.bind_congr (block_eq_fully (by omega)) fun _ _ => rfl
  · simp only [otherwise, if_false]

theorem fully_clauses (cursor : Cursor) :
    fully clauses cursor =
      if cursor.peek? = some (.keyword .handle) then do
        let (effect, afterEffect) ← cursor.advance.identifier
        let afterOpening ← afterEffect.expect .leftParen
        let (parameter, afterParameter) ← afterOpening.identifier
        let afterClosing ← afterParameter.expect .rightParen
        let (body, afterBody) ← fully block afterClosing
        let (others, afterOthers) ← fully clauses afterBody
        return (⟨effect, parameter, body, cursor.position⟩ :: others,
          afterOthers)
      else .ok ([], cursor) := by
  rw [fully_eq clauses, clauses]
  simp only [plain, pure_bind]
  split
  next peeked =>
    have keyword := Cursor.length_advance_lt peeked
    refine Outcome.bind_congr rfl ?_
    rintro ⟨effect, afterEffect⟩ effectRead
    have named := Cursor.length_lt_of_identifier effectRead
    dsimp only
    refine Outcome.bind_congr rfl fun afterOpening opened => ?_
    have opening := Cursor.length_lt_of_expect opened
    refine Outcome.bind_congr rfl ?_
    rintro ⟨parameter, afterParameter⟩ parameterRead
    have received := Cursor.length_lt_of_identifier parameterRead
    dsimp only
    refine Outcome.bind_congr rfl fun afterClosing closed => ?_
    have closing := Cursor.length_lt_of_expect closed
    refine Outcome.bind_congr (block_eq_fully (by omega)) ?_
    rintro ⟨body, after⟩ bodyRead
    have shorter := length_lt_of_block bodyRead
    dsimp only
    exact Outcome.bind_congr (clauses_eq_fully (by omega)) fun _ _ => rfl
  next => rfl

theorem fully_block (cursor : Cursor) :
    fully block cursor = (do
      let afterOpening ← cursor.expect .leftBrace
      let (expressions, afterExpressions) ← fully
        (sequence · true) afterOpening.skipSemicolons
      let afterClosing ← afterExpressions.expect .rightBrace
      return (⟨expressions, cursor.position⟩, afterClosing)) := by
  rw [fully_eq block, block]
  simp only [plain, pure_bind]
  refine Outcome.bind_congr rfl fun afterOpening opened => ?_
  have opening := Cursor.length_lt_of_expect opened
  have skipped := (Cursor.reads_skipSemicolons afterOpening).length_le
  exact Outcome.bind_congr (sequence_eq_fully (by omega)) fun _ _ => rfl

theorem fully_sequence (braced : Bool) (cursor : Cursor) :
    fully (sequence · braced) cursor =
      if cursor.peek?.isNone || (braced && cursor.sees .rightBrace) then
        .ok ([], cursor)
      else do
        let (first, afterFirst) ← fully expression cursor
        let (others, afterOthers) ← fully
          (sequence · braced) afterFirst.skipSemicolons
        return (first :: others, afterOthers) := by
  rw [fully_eq (sequence · braced), sequence]
  simp only [plain, pure_bind]
  split
  · rfl
  · refine Outcome.bind_congr (expression_eq_fully (by omega)) ?_
    rintro ⟨first, after⟩ firstRead
    have shorter := (spends_expression _ cursor).length_lt firstRead
    have skipped := (Cursor.reads_skipSemicolons after).length_le
    dsimp only
    exact Outcome.bind_congr (sequence_eq_fully (by omega)) fun _ _ => rfl

end EffectScript.Parser
