import EffectScript.Proofs.Outcome
import EffectScript.Proofs.PlainParser
import EffectScript.Proofs.Rendering

/-!
# Arranging tokens in lines

The same tokens can be arranged in lines in many ways. The grammar looks at the
lines in one place only: a parenthesis opens a call when it stands on the line
of the token before it. Two arrangements that agree about this are read alike:
both give the same program, up to the places in it, or both are refused for the
same problem.

The statement is proved for one function of the parser after the other, for two
cursors that walk through the two arrangements side by side.
-/

namespace EffectScript

/-! ## Two arrangements -/

/-- The two lists hold the same tokens, and every parenthesis behind the first
of them stands on the line of the token before it in both lists or in none. -/
inductive Rearranged : List Token → List Token → Prop where
  | none : Rearranged [] []
  | one {token other : Token} (kind : token.kind = other.kind) :
      Rearranged [token] [other]
  | more {token other next otherNext : Token} {rest otherRest : List Token}
      (kind : token.kind = other.kind)
      (calls : next.kind = .mark .leftParen →
        (next.position.line = token.position.line ↔
          otherNext.position.line = other.position.line))
      (others : Rearranged (next :: rest) (otherNext :: otherRest)) :
      Rearranged (token :: next :: rest) (other :: otherNext :: otherRest)

/-- The token behind an index stands on the line of the token at the index. -/
def StaysOnLine (tokens : List Token) (index : Nat) : Prop :=
  (tokens[index + 1]?).map (·.position.line) =
    (tokens[index]?).map (·.position.line)

instance (tokens : List Token) (index : Nat) :
    Decidable (StaysOnLine tokens index) :=
  inferInstanceAs (Decidable (_ = _))

namespace Rearranged

variable {token other : Token} {rest otherRest tokens others : List Token}

theorem kind (rearranged : Rearranged (token :: rest) (other :: otherRest)) :
    token.kind = other.kind := by
  cases rearranged with
  | one kind => exact kind
  | more kind => exact kind

theorem tail (rearranged : Rearranged (token :: rest) (other :: otherRest)) :
    Rearranged rest otherRest := by
  cases rearranged with
  | one => exact .none
  | more _ _ others => exact others

theorem length_eq (rearranged : Rearranged tokens others) :
    tokens.length = others.length := by
  induction rearranged with
  | none => rfl
  | one => rfl
  | more _ _ _ inner => exact congrArg (· + 1) inner

/-- What the definition says, by the indices of the tokens. -/
theorem of_indices
    (kinds : tokens.map Token.kind = others.map Token.kind)
    (calls : ∀ index, (tokens[index + 1]?).map Token.kind =
      some (.mark .leftParen) →
      (StaysOnLine tokens index ↔ StaysOnLine others index)) :
    Rearranged tokens others := by
  induction tokens generalizing others with
  | nil =>
      obtain rfl := List.map_eq_nil_iff.1 kinds.symm
      exact .none
  | cons token tokens inner =>
      obtain ⟨other, others, rfl, kind, kinds⟩ :=
        List.map_eq_cons_iff.1 kinds.symm
      have tails : Rearranged tokens others := inner kinds.symm fun index =>
        calls (index + 1)
      cases tails with
      | none => exact .one kind.symm
      | one next =>
          exact .more kind.symm
            (fun opens => by simpa [StaysOnLine] using calls 0 (by
              simp [opens])) (.one next)
      | more next nextCalls rest =>
          exact .more kind.symm
            (fun opens => by simpa [StaysOnLine] using calls 0 (by
              simp [opens]))
            (.more next nextCalls rest)

end Rearranged

namespace Cursor

variable {cursor other : Cursor} {kind : TokenKind}

/-- The tokens before the two cursors are two arrangements of the same
tokens. -/
def Abreast (cursor other : Cursor) : Prop :=
  Rearranged cursor.rest other.rest

/-- Moreover, a call is open to both cursors or to none. -/
structure InStep (cursor other : Cursor) : Prop where
  abreast : cursor.Abreast other
  seesCall : cursor.seesCall = other.seesCall

/-- Behind the first token of two arrangements, a call is open in both or in
none. -/
theorem seesCall_behind {token otherToken : Token}
    {rest otherRest : List Token}
    (rearranged : Rearranged (token :: rest) (otherToken :: otherRest)) :
    (⟨rest, token.position⟩ : Cursor).seesCall =
      (⟨otherRest, otherToken.position⟩ : Cursor).seesCall := by
  cases rearranged with
  | one => rfl
  | @more _ _ next otherNext rest otherRest _ calls others =>
      have sameSeen :
          (⟨otherNext :: otherRest, otherToken.position⟩ : Cursor).sees
            .leftParen =
          (⟨next :: rest, token.position⟩ : Cursor).sees .leftParen := by
        simp [sees, peek?, others.kind]
      unfold seesCall
      rw [sameSeen]
      by_cases opens : next.kind = .mark .leftParen
      · exact congrArg _ (decide_eq_decide.2 (calls opens))
      · have unseen : (⟨next :: rest, token.position⟩ : Cursor).sees
            .leftParen = false := by
          simp only [sees, peek?]
          split <;> simp [opens]
        rw [unseen, Bool.false_and, Bool.false_and]

namespace Abreast

theorem peek? (abreast : cursor.Abreast other) :
    other.peek? = cursor.peek? := by
  obtain ⟨rest, previous⟩ := cursor
  obtain ⟨otherRest, otherPrevious⟩ := other
  cases abreast with
  | none => rfl
  | one kind => simp only [Cursor.peek?, kind]
  | more kind => simp only [Cursor.peek?, kind]

theorem sees (abreast : cursor.Abreast other) (mark : Mark) :
    other.sees mark = cursor.sees mark := by
  rw [Cursor.sees, Cursor.sees, abreast.peek?]

/-- Behind a token, the two cursors are in step. -/
theorem advance
    (abreast : cursor.Abreast other)
    (peeked : cursor.peek? = some kind) :
    cursor.advance.InStep other.advance := by
  obtain ⟨rest, previous⟩ := cursor
  obtain ⟨otherRest, otherPrevious⟩ := other
  cases rest with
  | nil => cases peeked
  | cons token rest =>
      cases otherRest with
      | nil => cases abreast
      | cons otherToken otherRest =>
          have inside : token.kind ≠ .endOfInput := by
            intro ended
            simp [Cursor.peek?, ended] at peeked
          have otherInside : otherToken.kind ≠ .endOfInput :=
            Rearranged.kind abreast ▸ inside
          simp only [Cursor.advance, if_neg inside, if_neg otherInside]
          exact ⟨Rearranged.tail abreast, seesCall_behind abreast⟩

/-- Both cursors read a mark or none does. -/
theorem accept? (abreast : cursor.Abreast other) (mark : Mark) :
    cursor.accept? mark = none ∧ other.accept? mark = none ∨
      cursor.accept? mark = some cursor.advance ∧
      other.accept? mark = some other.advance ∧
        cursor.advance.InStep other.advance := by
  unfold Cursor.accept?
  rw [abreast.sees]
  by_cases seen : cursor.sees mark = true
  · rw [if_pos seen, if_pos seen]
    exact .inr ⟨rfl, rfl, abreast.advance (of_decide_eq_true seen)⟩
  · rw [if_neg seen, if_neg seen]
    exact .inl ⟨rfl, rfl⟩

/-- Both cursors read an operator or none does. -/
theorem operator? (abreast : cursor.Abreast other) (level : Precedence) :
    cursor.operator? level = none ∧ other.operator? level = none ∨
      ∃ op, cursor.operator? level = some (op, cursor.advance) ∧
        other.operator? level = some (op, other.advance) ∧
        cursor.advance.InStep other.advance := by
  unfold Cursor.operator?
  rw [abreast.peek?]
  split
  next mark peeked =>
    cases level.operator? mark with
    | none => exact .inl ⟨rfl, rfl⟩
    | some op => exact .inr ⟨op, rfl, rfl, abreast.advance peeked⟩
  next => exact .inl ⟨rfl, rfl⟩

theorem skipSemicolons (abreast : cursor.Abreast other) :
    cursor.skipSemicolons.Abreast other.skipSemicolons := by
  obtain ⟨rest, previous⟩ := cursor
  obtain ⟨otherRest, otherPrevious⟩ := other
  unfold Cursor.skipSemicolons
  induction rest generalizing previous otherRest otherPrevious with
  | nil =>
      cases abreast
      exact Rearranged.none
  | cons token rest inner =>
      cases otherRest with
      | nil => cases abreast
      | cons otherToken otherRest =>
          have same : token.kind = otherToken.kind := Rearranged.kind abreast
          simp only [skipSemicolonsFrom, ← same]
          split
          · exact inner token.position otherRest otherToken.position
              (Rearranged.tail abreast)
          · exact abreast

end Abreast

end Cursor

/-! ## Two readings -/

namespace Parser

variable {α β : Type} {meaning : α → α} {furtherMeaning : β → β}
    {cursor other : Cursor} {keeps furtherKeeps : Cursor → Cursor → Prop}

/-- The two readings give results that mean the same and leave related cursors,
or are refused for the same problem. -/
def Concur (meaning : α → α) (keeps : Cursor → Cursor → Prop) :
    Except SourceError (α × Cursor) → Except SourceError (α × Cursor) → Prop
  | .ok (result, after), .ok (otherResult, otherAfter) =>
      meaning result = meaning otherResult ∧ keeps after otherAfter
  | .error error, .error otherError => error.problem = otherError.problem
  | _, _ => False

namespace Concur

theorem ok {result otherResult : α}
    {after otherAfter : Cursor}
    (same : meaning result = meaning otherResult)
    (kept : keeps after otherAfter) :
    Concur meaning keeps (.ok (result, after))
      (.ok (otherResult, otherAfter)) := ⟨same, kept⟩

theorem tooDeep :
    Concur meaning keeps (.error ⟨.nestedTooDeep, cursor.position⟩)
      (.error ⟨.nestedTooDeep, other.position⟩) :=
  rfl

theorem refuse (abreast : cursor.Abreast other) (wanted : Expectation) :
    Concur meaning keeps (.error (cursor.refuse wanted))
      (.error (other.refuse wanted)) := by
  show SourceProblem.expected wanted cursor.peek? = .expected wanted other.peek?
  rw [abreast.peek?]

theorem bind
    {first second : Except SourceError (α × Cursor)}
    {rest otherRest : α × Cursor → Except SourceError (β × Cursor)}
    (early : Concur meaning keeps first second)
    (late : ∀ result otherResult after otherAfter,
      meaning result = meaning otherResult → keeps after otherAfter →
      Concur furtherMeaning furtherKeeps (rest (result, after))
        (otherRest (otherResult, otherAfter))) :
    Concur furtherMeaning furtherKeeps (first >>= rest)
      (second >>= otherRest) := by
  match first, second with
  | .ok (result, after), .ok (otherResult, otherAfter) =>
      exact late result otherResult after otherAfter early.1 early.2
  | .error error, .error otherError => exact early

/-- Both cursors go on behind a mark, or both miss it. -/
theorem expect
    (abreast : cursor.Abreast other)
    (mark : Mark)
    {rest otherRest : Cursor → Except SourceError (β × Cursor)}
    (late : cursor.advance.InStep other.advance →
      Concur furtherMeaning furtherKeeps (rest cursor.advance)
        (otherRest other.advance)) :
    Concur furtherMeaning furtherKeeps (cursor.expect mark >>= rest)
      (other.expect mark >>= otherRest) := by
  unfold Cursor.expect
  rw [abreast.sees]
  by_cases seen : cursor.sees mark = true
  · rw [if_pos seen, if_pos seen]
    exact late (abreast.advance (of_decide_eq_true seen))
  · rw [if_neg seen, if_neg seen]
    exact refuse abreast _

theorem closing
    (abreast : cursor.Abreast other)
    (mark : Mark)
    {result otherResult : β}
    (same : furtherMeaning result = furtherMeaning otherResult) :
    Concur furtherMeaning Cursor.InStep
      (cursor.expect mark >>= fun after => .ok (result, after))
      (other.expect mark >>= fun after => .ok (otherResult, after)) :=
  expect abreast mark fun inStep => ok same inStep

end Concur

theorem concur_identifier (abreast : cursor.Abreast other) :
    Concur id Cursor.InStep cursor.identifier other.identifier := by
  unfold Cursor.identifier
  rw [abreast.peek?]
  split
  next name peeked => exact .ok rfl (abreast.advance peeked)
  next => exact .refuse abreast _

theorem concur_moreParameters (bound : Nat) (abreast : cursor.Abreast other) :
    Concur id Cursor.InStep (moreParameters bound cursor)
      (moreParameters bound other) := by
  induction bound generalizing cursor other with
  | zero => exact .tooDeep
  | succ bound inner =>
      simp only [moreParameters, plain, pure_bind]
      obtain ⟨unread, otherUnread⟩ | ⟨read, otherRead, inStep⟩ :=
        abreast.accept? .comma
      · simp only [unread, otherUnread]
        exact .closing abreast .rightParen rfl
      · simp only [read, otherRead]
        refine (concur_identifier inStep.abreast).bind
          fun name _ after otherAfter same kept => ?_
        obtain rfl : name = _ := same
        refine (inner kept.abreast).bind fun names _ _ _ same kept => ?_
        obtain rfl : names = _ := same
        exact .ok rfl kept

theorem concur_parameters (bound : Nat) (abreast : cursor.Abreast other) :
    Concur id Cursor.InStep (parameters bound cursor)
      (parameters bound other) := by
  simp only [parameters, plain, pure_bind]
  obtain ⟨unread, otherUnread⟩ | ⟨read, otherRead, inStep⟩ :=
    abreast.accept? .rightParen
  · simp only [unread, otherUnread]
    refine (concur_identifier abreast).bind
      fun name _ after otherAfter same kept => ?_
    obtain rfl : name = _ := same
    refine (concur_moreParameters bound kept.abreast).bind
      fun names _ _ _ same kept => ?_
    obtain rfl : names = _ := same
    exact .ok rfl kept
  · simp only [read, otherRead]
    exact .ok rfl inStep

theorem peek?_of_seesCall (seen : cursor.seesCall = true) :
    cursor.peek? = some (.mark .leftParen) :=
  of_decide_eq_true (Bool.and_eq_true _ _ ▸ seen).1

theorem isEmpty_of_unplacedClauses
    {clauses others : List Clause}
    (same : unplacedClauses clauses = unplacedClauses others) :
    others.isEmpty = clauses.isEmpty := by
  match clauses, others with
  | [], [] => rfl
  | [], ⟨_, _, _, _⟩ :: _ => cases same
  | ⟨_, _, _, _⟩ :: _, [] => cases same
  | _ :: _, _ :: _ => rfl

mutual

theorem concur_expression
    (bound : Nat)
    {cursor other : Cursor}
    (abreast : cursor.Abreast other) :
    Concur Expr.unplaced Cursor.InStep (expression bound cursor)
      (expression bound other) := by
  match bound with
  | 0 => exact .tooDeep
  | bound + 1 =>
      simp only [expression, plain, pure_bind]
      refine (concur_binary bound .equality abreast).bind
        fun target otherTarget _ _ same kept => ?_
      obtain ⟨unread, otherUnread⟩ | ⟨read, otherRead, inStep⟩ :=
        kept.abreast.accept? .assign
      · simp only [unread, otherUnread]
        exact .ok same kept
      · simp only [read, otherRead]
        refine (concur_expression bound inStep.abreast).bind
          fun _ _ _ _ sameValue kept => ?_
        exact .ok (by simp only [Expr.unplaced, same, sameValue]) kept

theorem concur_binary
    (bound : Nat) (level : Precedence)
    {cursor other : Cursor}
    (abreast : cursor.Abreast other) :
    Concur Expr.unplaced Cursor.InStep (binary bound level cursor)
      (binary bound level other) := by
  match bound with
  | 0 => exact .tooDeep
  | bound + 1 =>
      simp only [binary]
      refine (concur_operand bound level abreast).bind
        fun left otherLeft _ _ same kept => ?_
      exact concur_moreOperands bound level same kept

theorem concur_moreOperands
    (bound : Nat) (level : Precedence)
    {cursor other : Cursor} {left otherLeft : Expr}
    (sameLeft : left.unplaced = otherLeft.unplaced)
    (inStep : cursor.InStep other) :
    Concur Expr.unplaced Cursor.InStep (moreOperands bound level left cursor)
      (moreOperands bound level otherLeft other) := by
  match bound with
  | 0 => exact .tooDeep
  | bound + 1 =>
      simp only [moreOperands, plain, pure_bind]
      obtain ⟨unread, otherUnread⟩ | ⟨op, read, otherRead, advanced⟩ :=
        inStep.abreast.operator? level
      · simp only [unread, otherUnread]
        exact .ok sameLeft inStep
      · simp only [read, otherRead]
        refine (concur_operand bound level advanced.abreast).bind
          fun _ _ _ _ same kept => ?_
        exact concur_moreOperands bound level
          (by simp only [Expr.unplaced, sameLeft, same]) kept

theorem concur_operand
    (bound : Nat) (level : Precedence)
    {cursor other : Cursor}
    (abreast : cursor.Abreast other) :
    Concur Expr.unplaced Cursor.InStep (operand bound level cursor)
      (operand bound level other) := by
  match bound with
  | 0 => exact .tooDeep
  | bound + 1 =>
      simp only [operand]
      split
      next tighter _ => exact concur_binary bound tighter abreast
      next => exact concur_unary bound abreast

theorem concur_unary
    (bound : Nat)
    {cursor other : Cursor}
    (abreast : cursor.Abreast other) :
    Concur Expr.unplaced Cursor.InStep (unary bound cursor)
      (unary bound other) := by
  match bound with
  | 0 => exact .tooDeep
  | bound + 1 =>
      simp only [unary, plain, pure_bind, abreast.peek?]
      split
      next mark peeked =>
        split
        next op _ =>
          have inStep := abreast.advance peeked
          refine (concur_unary bound inStep.abreast).bind
            fun inner otherInner _ _ same kept => ?_
          exact .ok (by simp only [Expr.unplaced, same]) kept
        next => exact concur_call bound abreast
      next => exact concur_call bound abreast

theorem concur_call
    (bound : Nat)
    {cursor other : Cursor}
    (abreast : cursor.Abreast other) :
    Concur Expr.unplaced Cursor.InStep (call bound cursor)
      (call bound other) := by
  match bound with
  | 0 => exact .tooDeep
  | bound + 1 =>
      simp only [call]
      refine (concur_primary bound abreast).bind
        fun callee otherCallee _ _ same kept => ?_
      exact concur_moreCalls bound same kept

/-- Here the lines count: both cursors see a call or none does. -/
theorem concur_moreCalls
    (bound : Nat)
    {cursor other : Cursor} {callee otherCallee : Expr}
    (sameCallee : callee.unplaced = otherCallee.unplaced)
    (inStep : cursor.InStep other) :
    Concur Expr.unplaced Cursor.InStep (moreCalls bound callee cursor)
      (moreCalls bound otherCallee other) := by
  match bound with
  | 0 => exact .tooDeep
  | bound + 1 =>
      simp only [moreCalls, plain, pure_bind, ← inStep.seesCall]
      split
      next seen =>
        have advanced := inStep.abreast.advance (peek?_of_seesCall seen)
        refine (concur_arguments bound advanced.abreast).bind
          fun _ _ _ _ same kept => ?_
        exact concur_moreCalls bound
          (by simp only [Expr.unplaced, sameCallee, same]) kept
      next => exact .ok sameCallee inStep

theorem concur_arguments
    (bound : Nat)
    {cursor other : Cursor}
    (abreast : cursor.Abreast other) :
    Concur unplacedAll Cursor.InStep (arguments bound cursor)
      (arguments bound other) := by
  match bound with
  | 0 => exact .tooDeep
  | bound + 1 =>
      simp only [arguments, plain, pure_bind]
      obtain ⟨unread, otherUnread⟩ | ⟨read, otherRead, inStep⟩ :=
        abreast.accept? .rightParen
      · simp only [unread, otherUnread]
        refine (concur_expression bound abreast).bind
          fun first otherFirst _ _ same kept => ?_
        refine (concur_moreArguments bound kept.abreast).bind
          fun _ _ _ _ sameOthers kept => ?_
        exact .ok (by simp only [unplacedAll, same, sameOthers]) kept
      · simp only [read, otherRead]
        exact .ok rfl inStep

theorem concur_moreArguments
    (bound : Nat)
    {cursor other : Cursor}
    (abreast : cursor.Abreast other) :
    Concur unplacedAll Cursor.InStep (moreArguments bound cursor)
      (moreArguments bound other) := by
  match bound with
  | 0 => exact .tooDeep
  | bound + 1 =>
      simp only [moreArguments, plain, pure_bind]
      obtain ⟨unread, otherUnread⟩ | ⟨read, otherRead, inStep⟩ :=
        abreast.accept? .comma
      · simp only [unread, otherUnread]
        exact .closing abreast .rightParen rfl
      · simp only [read, otherRead]
        refine (concur_expression bound inStep.abreast).bind
          fun first otherFirst _ _ same kept => ?_
        refine (concur_moreArguments bound kept.abreast).bind
          fun _ _ _ _ sameOthers kept => ?_
        exact .ok (by simp only [unplacedAll, same, sameOthers]) kept

theorem concur_primary
    (bound : Nat)
    {cursor other : Cursor}
    (abreast : cursor.Abreast other) :
    Concur Expr.unplaced Cursor.InStep (primary bound cursor)
      (primary bound other) := by
  match bound with
  | 0 => exact .tooDeep
  | bound + 1 =>
      simp only [primary, plain, pure_bind, abreast.peek?]
      split
      next name peeked => exact .ok rfl (abreast.advance peeked)
      next peeked =>
        refine (concur_expression bound (abreast.advance peeked).abreast).bind
          fun inner otherInner _ _ same kept => ?_
        exact .closing kept.abreast .rightParen same
      next =>
        refine (concur_block bound abreast).bind
          fun body otherBody _ _ same kept => ?_
        exact .ok (by simp only [Expr.unplaced, same]) kept
      next peeked => exact concur_branch bound abreast peeked
      next peeked =>
        refine (concur_expression bound (abreast.advance peeked).abreast).bind
          fun _ _ _ _ sameCondition kept => ?_
        refine (concur_block bound kept.abreast).bind
          fun _ _ _ _ sameBody kept => ?_
        exact .ok (by simp only [Expr.unplaced, sameCondition, sameBody]) kept
      next peeked =>
        refine (concur_identifier (abreast.advance peeked).abreast).bind
          fun name _ _ _ sameName kept => ?_
        obtain rfl : name = _ := sameName
        refine .expect kept.abreast .leftParen fun inStep => ?_
        refine (concur_parameters bound inStep.abreast).bind
          fun names _ _ _ sameNames kept => ?_
        obtain rfl : names = _ := sameNames
        refine (concur_block bound kept.abreast).bind
          fun _ _ _ _ sameBody kept => ?_
        exact .ok (by simp only [Expr.unplaced, sameBody]) kept
      next peeked =>
        refine (concur_block bound (abreast.advance peeked).abreast).bind
          fun _ _ _ _ sameBody kept => ?_
        refine (concur_clauses bound kept).bind
          fun clauses _ _ _ sameClauses kept => ?_
        simp only [isEmpty_of_unplacedClauses sameClauses]
        split
        · exact .refuse kept.abreast _
        · exact .ok (by simp only [Expr.unplaced, sameBody, sameClauses]) kept
      next peeked =>
        refine (concur_identifier (abreast.advance peeked).abreast).bind
          fun effect _ after otherAfter sameEffect kept => ?_
        obtain rfl : effect = _ := sameEffect
        simp only [← kept.seesCall]
        split
        next seen =>
          have opened := kept.abreast.advance (peek?_of_seesCall seen)
          obtain ⟨unread, otherUnread⟩ | ⟨read, otherRead, inStep⟩ :=
            opened.abreast.accept? .rightParen
          · simp only [unread, otherUnread]
            refine (concur_expression bound opened.abreast).bind
              fun _ _ _ _ samePayload kept => ?_
            exact .closing kept.abreast .rightParen
              (by simp only [Expr.unplaced, unplacedOptional, samePayload])
          · simp only [read, otherRead]
            exact .ok rfl inStep
        next => exact .ok rfl kept
      next kind peeked =>
        split
        next value _ => exact .ok rfl (abreast.advance peeked)
        next => exact .refuse abreast _
      next => exact .refuse abreast _

theorem concur_branch
    (bound : Nat)
    {cursor other : Cursor}
    (abreast : cursor.Abreast other)
    {kind : TokenKind}
    (peeked : cursor.peek? = some kind) :
    Concur Expr.unplaced Cursor.InStep (branch bound cursor)
      (branch bound other) := by
  match bound with
  | 0 => exact .tooDeep
  | bound + 1 =>
      simp only [branch, plain, pure_bind]
      refine (concur_expression bound (abreast.advance peeked).abreast).bind
        fun _ _ _ _ sameCondition kept => ?_
      refine (concur_block bound kept.abreast).bind
        fun _ _ afterConsequence otherAfterConsequence
          sameConsequence kept => ?_
      simp only [kept.abreast.peek?]
      split
      next otherwise =>
        have turned := kept.abreast.advance otherwise
        simp only [turned.abreast.peek?]
        split
        next again =>
          refine (concur_branch bound turned.abreast again).bind
            fun _ _ _ _ sameAlternative kept => ?_
          refine .ok ?_ kept
          simp only [Expr.unplaced, unplacedOptional, sameCondition,
            sameConsequence, sameAlternative]
        next =>
          refine (concur_block bound turned.abreast).bind
            fun _ _ _ _ sameAlternative kept => ?_
          refine .ok ?_ kept
          simp only [Expr.unplaced, unplacedOptional, sameCondition,
            sameConsequence, sameAlternative]
      next =>
        refine .ok ?_ kept
        simp only [Expr.unplaced, sameCondition, sameConsequence]

theorem concur_clauses
    (bound : Nat)
    {cursor other : Cursor}
    (inStep : cursor.InStep other) :
    Concur unplacedClauses Cursor.InStep (clauses bound cursor)
      (clauses bound other) := by
  match bound with
  | 0 => exact .tooDeep
  | bound + 1 =>
      simp only [clauses, plain, pure_bind, inStep.abreast.peek?]
      split
      next peeked =>
        refine (concur_identifier (inStep.abreast.advance peeked).abreast).bind
          fun effect _ _ _ sameEffect kept => ?_
        obtain rfl : effect = _ := sameEffect
        refine .expect kept.abreast .leftParen fun opened => ?_
        refine (concur_identifier opened.abreast).bind
          fun parameter _ _ _ sameParameter kept => ?_
        obtain rfl : parameter = _ := sameParameter
        refine .expect kept.abreast .rightParen fun closed => ?_
        refine (concur_block bound closed.abreast).bind
          fun _ _ _ _ sameBody kept => ?_
        refine (concur_clauses bound kept).bind
          fun _ _ _ _ sameOthers kept => ?_
        exact .ok (by simp only [unplacedClauses, sameBody, sameOthers]) kept
      next => exact .ok rfl inStep

theorem concur_block
    (bound : Nat)
    {cursor other : Cursor}
    (abreast : cursor.Abreast other) :
    Concur Block.unplaced Cursor.InStep (block bound cursor)
      (block bound other) := by
  match bound with
  | 0 => exact .tooDeep
  | bound + 1 =>
      simp only [block, plain, pure_bind]
      refine .expect abreast .leftBrace fun opened => ?_
      refine (concur_sequence bound true opened.abreast.skipSemicolons).bind
        fun _ _ _ _ same kept => ?_
      exact .closing kept .rightBrace (by simp only [Block.unplaced, same])

theorem concur_sequence
    (bound : Nat) (braced : Bool)
    {cursor other : Cursor}
    (abreast : cursor.Abreast other) :
    Concur unplacedAll Cursor.Abreast (sequence bound braced cursor)
      (sequence bound braced other) := by
  match bound with
  | 0 => exact .tooDeep
  | bound + 1 =>
      simp only [sequence, plain, pure_bind, abreast.peek?, abreast.sees]
      split
      · exact .ok rfl abreast
      · refine (concur_expression bound abreast).bind
          fun _ _ _ _ same kept => ?_
        refine (concur_sequence bound braced kept.abreast.skipSemicolons).bind
          fun _ _ _ _ sameOthers kept => ?_
        exact .ok (by simp only [unplacedAll, same, sameOthers]) kept

end

end Parser

/-! ## Programs -/

/-- Two arrangements of the same tokens are parsed to the same program, up to
places, or are refused for the same problem. -/
theorem Rearranged.parse {tokens others : List Token}
    (rearranged : Rearranged tokens others) :
    (∃ program otherProgram, Block.parse tokens = .ok program ∧
        Block.parse others = .ok otherProgram ∧
        program.unplaced = otherProgram.unplaced) ∨
      ∃ error otherError, Block.parse tokens = .error error ∧
        Block.parse others = .error otherError ∧
        error.problem = otherError.problem := by
  have abreast : (⟨tokens, .start⟩ : Cursor).Abreast
      ⟨others, .start⟩ := rearranged
  have concur := Parser.concur_sequence (Parser.depthFor tokens.length)
    false abreast
  unfold Block.parse
  simp only [← rearranged.length_eq]
  match first : Parser.sequence (Parser.depthFor tokens.length) false
    ⟨tokens, .start⟩,
    second : Parser.sequence (Parser.depthFor tokens.length) false
      ⟨others, .start⟩ with
  | .ok (expressions, _), .ok (otherExpressions, _) =>
      rw [first, second] at concur
      exact .inl ⟨_, _, rfl, rfl, by simp only [Block.unplaced, concur.1]⟩
  | .error error, .error otherError =>
      rw [first, second] at concur
      exact .inr ⟨error, otherError, rfl, rfl, concur⟩
  | .ok _, .error _ =>
      rw [first, second] at concur
      exact concur.elim
  | .error _, .ok _ =>
      rw [first, second] at concur
      exact concur.elim

end EffectScript
