import EffectScript.Proofs.ProgramRefusal

/-!
# Blocks in their surroundings

What stands around a block is read in the same way whatever the block holds, as
long as the block itself is read to the same result. Two readings are followed
side by side: before the opening brace they see the same tokens, and behind the
block they are at the same place. Nothing else of the text between the braces
matters, so it is described only by what becomes of it.
-/

namespace EffectScript

open EffectScript.Parser

/-- Two texts behind the same opening brace. Whatever block is read from the
first one is read from the other one too, up to the same place. -/
structure Exchange where
  brace : Token
  text : List Token
  other : List Token
  opens : brace.kind = .mark .leftBrace
  reads : ∀ {previous : Position} {body : Block} {after : Cursor},
    fully block ⟨brace :: text, previous⟩ = .ok (body, after) →
      fully block ⟨brace :: other, previous⟩ = .ok (body, after)

namespace Exchange

variable {α β : Type} {exchange : Exchange}

/-- The cursors stand at the same place before the block, or at the same place
behind it. -/
inductive Beside (exchange : Exchange) : Cursor → Cursor → Prop where
  | before (tokens : List Token) (previous : Position) :
      Beside exchange ⟨tokens ++ exchange.brace :: exchange.text, previous⟩
        ⟨tokens ++ exchange.brace :: exchange.other, previous⟩
  | behind (cursor : Cursor) : Beside exchange cursor cursor

namespace Beside

variable {cursor there : Cursor} {kind : TokenKind}

theorem alike (beside : exchange.Beside cursor there) : cursor.Alike there := by
  cases beside with
  | before tokens previous => exact ⟨by cases tokens <;> rfl, rfl⟩
  | behind => exact .refl cursor

/-- Whatever token stands before the brace, both cursors can go on behind it. -/
theorem advance_before {token : Token} {tokens : List Token}
    {previous : Position}
    (peeked :
      (⟨token :: tokens ++ exchange.brace :: exchange.text, previous⟩ :
        Cursor).peek? = some kind) :
    exchange.Beside
      (⟨token :: tokens ++ exchange.brace :: exchange.text, previous⟩ :
        Cursor).advance
      (⟨token :: tokens ++ exchange.brace :: exchange.other, previous⟩ :
        Cursor).advance := by
  have inside : token.kind ≠ .endOfInput := by
    intro last
    simp [Cursor.peek?, last] at peeked
  simp only [Cursor.advance, List.cons_append, if_neg inside]
  exact .before tokens token.position

/-- Only a block goes on behind an opening brace. -/
theorem advance
    (beside : exchange.Beside cursor there)
    (peeked : cursor.peek? = some kind)
    (another : kind ≠ .mark .leftBrace) :
    exchange.Beside cursor.advance there.advance := by
  cases beside with
  | behind => exact .behind _
  | before tokens previous =>
      cases tokens with
      | nil =>
          have first : exchange.brace.kind = kind := by
            simpa [Cursor.peek?, exchange.opens] using peeked
          exact absurd (first.symm.trans exchange.opens) another
      | cons token tokens => exact advance_before peeked

theorem skipSemicolons (beside : exchange.Beside cursor there) :
    exchange.Beside cursor.skipSemicolons there.skipSemicolons := by
  cases beside with
  | behind => exact .behind _
  | before tokens previous =>
      induction tokens generalizing previous with
      | nil =>
          have solid : ∀ tokens, Solid (exchange.brace :: tokens) := by
            rintro tokens _ ⟨⟩ semicolon
            rw [exchange.opens] at semicolon
            cases semicolon
          rw [List.nil_append, List.nil_append,
            skipSemicolons_of_solid (solid _),
            skipSemicolons_of_solid (solid _)]
          exact .before [] previous
      | cons token tokens inner =>
          simp only [Cursor.skipSemicolons, Cursor.skipSemicolonsFrom,
            List.cons_append]
          split
          · exact inner token.position
          · exact .before (token :: tokens) previous

/-- Both cursors read a mark or none does. -/
theorem accept?
    (beside : exchange.Beside cursor there)
    (mark : Mark)
    (another : mark ≠ .leftBrace) :
    cursor.accept? mark = none ∧ there.accept? mark = none ∨
      cursor.accept? mark = some cursor.advance ∧
      there.accept? mark = some there.advance ∧
        exchange.Beside cursor.advance there.advance := by
  unfold Cursor.accept?
  rw [beside.alike.sees]
  split
  next seen =>
    exact .inr ⟨rfl, rfl, beside.advance (of_decide_eq_true seen)
      (by simpa using another)⟩
  next => exact .inl ⟨rfl, rfl⟩

end Beside

/-- Where the first reading succeeds, the other one gives the same result,
beside it. -/
abbrev Carries
    (exchange : Exchange)
    (parsed other : Except SourceError (α × Cursor)) : Prop :=
  Outcome.Follows (fun _ => True)
    (fun first second => first.1 = second.1 ∧ exchange.Beside first.2 second.2)
      parsed other

namespace Carries

variable {parsed other : Except SourceError (α × Cursor)}
    {cursor there : Cursor}

theorem ok {result : α} (beside : exchange.Beside cursor there) :
    exchange.Carries (.ok (result, cursor)) (.ok (result, there)) :=
  Outcome.Follows.ok ⟨rfl, beside⟩

theorem error {cause : SourceError} : exchange.Carries (.error cause) other :=
  .inl trivial

theorem of_outlasts (outlasts : Outlasts parsed other) :
    exchange.Carries parsed other := by
  cases parsed with
  | error cause => exact .error
  | ok read =>
      obtain ⟨_, rfl, rfl⟩ := outlasts
      exact .ok (.behind _)

theorem bind
    {rest otherRest : α × Cursor → Except SourceError (β × Cursor)}
    (early : exchange.Carries parsed other)
    (late : ∀ result after otherAfter, exchange.Beside after otherAfter →
      exchange.Carries (rest (result, after))
        (otherRest (result, otherAfter))) :
    exchange.Carries (parsed >>= rest) (other >>= otherRest) := by
  refine Outcome.Follows.bind early fun first second related => ?_
  obtain ⟨result, after⟩ := first
  obtain ⟨otherResult, otherAfter⟩ := second
  obtain ⟨rfl, beside⟩ := related
  exact late result after otherAfter beside

theorem expect
    (beside : exchange.Beside cursor there)
    {mark : Mark}
    (advanced : cursor.peek? = some (.mark mark) →
      exchange.Beside cursor.advance there.advance)
    {rest otherRest : Cursor → Except SourceError (β × Cursor)}
    (late : exchange.Beside cursor.advance there.advance →
      exchange.Carries (rest cursor.advance) (otherRest there.advance)) :
    exchange.Carries (cursor.expect mark >>= rest)
      (there.expect mark >>= otherRest) := by
  unfold Cursor.expect
  rw [beside.alike.sees]
  split
  next seen => exact late (advanced (of_decide_eq_true seen))
  next => exact .error

theorem closing
    (beside : exchange.Beside cursor there)
    {mark : Mark}
    (another : mark ≠ .leftBrace)
    {result : β} :
    exchange.Carries (cursor.expect mark >>= fun after => .ok (result, after))
      (there.expect mark >>= fun after => .ok (result, after)) :=
  expect beside (beside.advance · (by simpa using another)) .ok

end Carries

variable {cursor there : Cursor}

theorem carries_identifier (beside : exchange.Beside cursor there) :
    exchange.Carries cursor.identifier there.identifier := by
  unfold Cursor.identifier
  rw [beside.alike.peek?]
  split
  next name peeked => exact .ok (beside.advance peeked (by simp))
  next => exact .error

/-- This much more depth is enough for the other text, however deep the first
one lies. -/
def extra (exchange : Exchange) : Nat :=
  16 * (exchange.other.length + 1) + 1

theorem carries_moreParameters
    (bound : Nat)
    (beside : exchange.Beside cursor there) :
    exchange.Carries (moreParameters bound cursor)
      (moreParameters (exchange.extra + bound) there) := by
  induction bound generalizing cursor there with
  | zero => exact .error
  | succ bound inner =>
      simp only [moreParameters, plain, pure_bind]
      obtain ⟨unread, otherUnread⟩ | ⟨read, otherRead, behind⟩ :=
        beside.accept? .comma (by simp)
      · simp only [unread, otherUnread]
        exact .closing beside (by simp)
      · simp only [read, otherRead]
        refine (carries_identifier behind).bind fun name _ _ beside => ?_
        exact (inner beside).bind fun _ _ _ beside => .ok beside

theorem carries_parameters
    (bound : Nat)
    (beside : exchange.Beside cursor there) :
    exchange.Carries (parameters bound cursor)
      (parameters (exchange.extra + bound) there) := by
  simp only [parameters, plain, pure_bind]
  obtain ⟨unread, otherUnread⟩ | ⟨read, otherRead, behind⟩ :=
    beside.accept? .rightParen (by simp)
  · simp only [unread, otherUnread]
    refine (carries_identifier beside).bind fun name _ _ beside => ?_
    exact (carries_moreParameters bound beside).bind
      fun _ _ _ beside => .ok beside
  · simp only [read, otherRead]
    exact .ok behind

theorem fully_block_of_ok {bound : Nat}
    {result : Block × Cursor}
    (read : block bound cursor = .ok result) :
    fully block cursor = .ok result := by
  have outlasts := outlasts_block
    (Nat.le_add_right bound (16 * cursor.rest.length + 1)) cursor
  rw [block_eq_fully (Nat.le_add_left _ _), read] at outlasts
  obtain ⟨_, same, rfl⟩ := outlasts
  exact same

mutual

theorem carries_expression
    (bound : Nat)
    {cursor there : Cursor}
    (beside : exchange.Beside cursor there) :
    exchange.Carries (expression bound cursor)
      (expression (exchange.extra + bound) there) := by
  match bound with
  | 0 => exact .error
  | bound + 1 =>
      simp only [expression, plain, pure_bind]
      refine (carries_binary bound .equality beside).bind
        fun target _ _ beside => ?_
      obtain ⟨unread, otherUnread⟩ | ⟨read, otherRead, behind⟩ :=
        beside.accept? .assign (by simp)
      · simp only [unread, otherUnread]
        exact .ok beside
      · simp only [read, otherRead]
        exact (carries_expression bound behind).bind
          fun _ _ _ beside => .ok beside

theorem carries_binary
    (bound : Nat) (level : Precedence)
    {cursor there : Cursor}
    (beside : exchange.Beside cursor there) :
    exchange.Carries (binary bound level cursor)
      (binary (exchange.extra + bound) level there) := by
  match bound with
  | 0 => exact .error
  | bound + 1 =>
      simp only [binary]
      exact (carries_operand bound level beside).bind fun left _ _ beside =>
        carries_moreOperands bound level left beside

theorem carries_moreOperands
    (bound : Nat) (level : Precedence) (left : Expr)
    {cursor there : Cursor}
    (beside : exchange.Beside cursor there) :
    exchange.Carries (moreOperands bound level left cursor)
      (moreOperands (exchange.extra + bound) level left there) := by
  match bound with
  | 0 => exact .error
  | bound + 1 =>
      simp only [moreOperands, beside.alike.operator?, plain, pure_bind]
      match found : cursor.operator? level with
      | none => exact .ok beside
      | some (op, after) =>
          obtain ⟨peeked, rfl⟩ := Cursor.peek?_of_operator? found
          have behind := beside.advance peeked
            (by cases op <;> simp [BinaryOp.mark])
          exact (carries_operand bound level behind).bind
              fun right _ _ beside =>
            carries_moreOperands bound level _ beside

theorem carries_operand
    (bound : Nat) (level : Precedence)
    {cursor there : Cursor}
    (beside : exchange.Beside cursor there) :
    exchange.Carries (operand bound level cursor)
      (operand (exchange.extra + bound) level there) := by
  match bound with
  | 0 => exact .error
  | bound + 1 =>
      simp only [operand]
      split
      next tighter _ => exact carries_binary bound tighter beside
      next => exact carries_unary bound beside

theorem carries_unary
    (bound : Nat)
    {cursor there : Cursor}
    (beside : exchange.Beside cursor there) :
    exchange.Carries (unary bound cursor)
      (unary (exchange.extra + bound) there) := by
  match bound with
  | 0 => exact .error
  | bound + 1 =>
      simp only [unary, beside.alike.peek?, beside.alike.position,
        plain, pure_bind]
      split
      next mark peeked =>
        split
        next op read =>
          have behind := beside.advance peeked
            (by rintro ⟨⟩; cases read)
          exact (carries_unary bound behind).bind fun _ _ _ beside => .ok beside
        next => exact carries_call bound beside
      next => exact carries_call bound beside

theorem carries_call
    (bound : Nat)
    {cursor there : Cursor}
    (beside : exchange.Beside cursor there) :
    exchange.Carries (call bound cursor)
      (call (exchange.extra + bound) there) := by
  match bound with
  | 0 => exact .error
  | bound + 1 =>
      simp only [call]
      exact (carries_primary bound beside).bind fun callee _ _ beside =>
        carries_moreCalls bound callee beside

theorem carries_moreCalls
    (bound : Nat) (callee : Expr)
    {cursor there : Cursor}
    (beside : exchange.Beside cursor there) :
    exchange.Carries (moreCalls bound callee cursor)
      (moreCalls (exchange.extra + bound) callee there) := by
  match bound with
  | 0 => exact .error
  | bound + 1 =>
      simp only [moreCalls, beside.alike.seesCall, plain, pure_bind]
      split
      next seen =>
        have behind := beside.advance (peek?_of_seesCall seen) (by simp)
        exact (carries_arguments bound behind).bind fun _ _ _ beside =>
          carries_moreCalls bound _ beside
      next => exact .ok beside

theorem carries_arguments
    (bound : Nat)
    {cursor there : Cursor}
    (beside : exchange.Beside cursor there) :
    exchange.Carries (arguments bound cursor)
      (arguments (exchange.extra + bound) there) := by
  match bound with
  | 0 => exact .error
  | bound + 1 =>
      simp only [arguments, plain, pure_bind]
      obtain ⟨unread, otherUnread⟩ | ⟨read, otherRead, behind⟩ :=
        beside.accept? .rightParen (by simp)
      · simp only [unread, otherUnread]
        refine (carries_expression bound beside).bind fun first _ _ beside => ?_
        exact (carries_moreArguments bound beside).bind
          fun _ _ _ beside => .ok beside
      · simp only [read, otherRead]
        exact .ok behind

theorem carries_moreArguments
    (bound : Nat)
    {cursor there : Cursor}
    (beside : exchange.Beside cursor there) :
    exchange.Carries (moreArguments bound cursor)
      (moreArguments (exchange.extra + bound) there) := by
  match bound with
  | 0 => exact .error
  | bound + 1 =>
      simp only [moreArguments, plain, pure_bind]
      obtain ⟨unread, otherUnread⟩ | ⟨read, otherRead, behind⟩ :=
        beside.accept? .comma (by simp)
      · simp only [unread, otherUnread]
        exact .closing beside (by simp)
      · simp only [read, otherRead]
        refine (carries_expression bound behind).bind fun first _ _ beside => ?_
        exact (carries_moreArguments bound beside).bind
          fun _ _ _ beside => .ok beside

theorem carries_primary
    (bound : Nat)
    {cursor there : Cursor}
    (beside : exchange.Beside cursor there) :
    exchange.Carries (primary bound cursor)
      (primary (exchange.extra + bound) there) := by
  match bound with
  | 0 => exact .error
  | bound + 1 =>
      simp only [primary, beside.alike.peek?, beside.alike.position,
        plain, pure_bind]
      split
      next name peeked => exact .ok (beside.advance peeked (by simp))
      next peeked =>
        exact (carries_expression bound (beside.advance peeked (by simp))).bind
          fun inner _ _ beside => .closing beside (by simp)
      next =>
        exact (carries_block bound beside).bind fun _ _ _ beside => .ok beside
      next peeked => exact carries_branch bound beside peeked
      next peeked =>
        refine (carries_expression bound (beside.advance peeked (by simp))).bind
          fun condition _ _ beside => ?_
        exact (carries_block bound beside).bind fun _ _ _ beside => .ok beside
      next peeked =>
        refine (carries_identifier (beside.advance peeked (by simp))).bind
          fun name _ _ beside => ?_
        refine .expect beside (beside.advance · (by simp)) fun opened => ?_
        refine (carries_parameters bound opened).bind fun names _ _ beside => ?_
        exact (carries_block bound beside).bind fun _ _ _ beside => .ok beside
      next peeked =>
        refine (carries_block bound (beside.advance peeked (by simp))).bind
          fun body _ _ beside => ?_
        refine (carries_clauses bound beside).bind fun clauses _ _ beside => ?_
        dsimp only
        split
        · exact .error
        · exact .ok beside
      next peeked =>
        refine (carries_identifier (beside.advance peeked (by simp))).bind
          fun effect _ _ beside => ?_
        simp only [beside.alike.seesCall]
        split
        next seen =>
          have opened := beside.advance (peek?_of_seesCall seen) (by simp)
          obtain ⟨unread, otherUnread⟩ | ⟨read, otherRead, behind⟩ :=
            opened.accept? .rightParen (by simp)
          · simp only [unread, otherUnread]
            exact (carries_expression bound opened).bind
                fun payload _ _ beside =>
              .closing beside (by simp)
          · simp only [read, otherRead]
            exact .ok behind
        next => exact .ok beside
      next peeked =>
        split
        next value read =>
          exact .ok (beside.advance peeked (by rintro rfl; cases read))
        next => exact .error
      next => exact .error

theorem carries_branch
    (bound : Nat)
    {cursor there : Cursor}
    (beside : exchange.Beside cursor there)
    (peeked : cursor.peek? = some (.keyword .branch)) :
    exchange.Carries (branch bound cursor)
      (branch (exchange.extra + bound) there) := by
  match bound with
  | 0 => exact .error
  | bound + 1 =>
      simp only [branch, beside.alike.position, plain, pure_bind]
      refine (carries_expression bound (beside.advance peeked (by simp))).bind
        fun condition _ _ beside => ?_
      refine (carries_block bound beside).bind fun consequence _ _ beside => ?_
      simp only [beside.alike.peek?]
      split
      next otherwise =>
        have turned := beside.advance otherwise (by simp)
        simp only [turned.alike.peek?]
        split
        next again =>
          exact (carries_branch bound turned again).bind
            fun _ _ _ beside => .ok beside
        next =>
          exact (carries_block bound turned).bind fun _ _ _ beside => .ok beside
      next => exact .ok beside

theorem carries_clauses
    (bound : Nat)
    {cursor there : Cursor}
    (beside : exchange.Beside cursor there) :
    exchange.Carries (clauses bound cursor)
      (clauses (exchange.extra + bound) there) := by
  match bound with
  | 0 => exact .error
  | bound + 1 =>
      simp only [clauses, beside.alike.peek?, beside.alike.position,
        plain, pure_bind]
      split
      next peeked =>
        refine (carries_identifier (beside.advance peeked (by simp))).bind
          fun effect _ _ beside => ?_
        refine .expect beside (beside.advance · (by simp)) fun opened => ?_
        refine (carries_identifier opened).bind fun parameter _ _ beside => ?_
        refine .expect beside (beside.advance · (by simp)) fun closed => ?_
        refine (carries_block bound closed).bind fun body _ _ beside => ?_
        exact (carries_clauses bound beside).bind fun _ _ _ beside => .ok beside
      next => exact .ok beside

/-- Here the two readings part, when the cursors stand at the brace, and meet
again behind the block. -/
theorem carries_block
    (bound : Nat)
    {cursor there : Cursor}
    (beside : exchange.Beside cursor there) :
    exchange.Carries (block bound cursor)
      (block (exchange.extra + bound) there) := by
  match bound with
  | 0 => exact .error
  | bound + 1 =>
      cases beside with
      | behind => exact .of_outlasts (outlasts_block (by omega) cursor)
      | before tokens previous =>
          cases tokens with
          | nil =>
              rw [List.nil_append, List.nil_append]
              cases read : block (bound + 1)
                ⟨exchange.brace :: exchange.text, previous⟩ with
              | error cause => exact .error
              | ok result =>
                  have enough :
                      16 * (⟨exchange.brace :: exchange.other, previous⟩ :
                        Cursor).rest.length +
                      1 ≤ exchange.extra + (bound + 1) := by simp [extra]
                  rw [block_eq_fully enough,
                    exchange.reads (fully_block_of_ok read)]
                  exact .ok (.behind result.2)
          | cons token tokens =>
              simp only [block, plain, pure_bind]
              have beside : exchange.Beside _ _ :=
                .before (token :: tokens) previous
              simp only [beside.alike.position]
              refine .expect beside Beside.advance_before fun opened => ?_
              refine (carries_sequence bound true opened.skipSemicolons).bind
                fun _ _ _ beside => ?_
              exact .closing beside (by simp)

theorem carries_sequence
    (bound : Nat) (braced : Bool)
    {cursor there : Cursor}
    (beside : exchange.Beside cursor there) :
    exchange.Carries (sequence bound braced cursor)
      (sequence (exchange.extra + bound) braced there) := by
  match bound with
  | 0 => exact .error
  | bound + 1 =>
      simp only [Parser.sequence, plain, pure_bind, beside.alike.peek?,
        beside.alike.sees]
      split
      · exact .ok beside
      · refine (carries_expression bound beside).bind fun first _ _ beside => ?_
        exact (carries_sequence bound braced beside.skipSemicolons).bind
          fun _ _ _ beside => .ok beside

end

/-- A program stays the same when one of its blocks is exchanged. -/
theorem parse
    (exchange : Exchange)
    {outer : List Token} {program : Block}
    (parsed : Block.parse (outer ++ exchange.brace :: exchange.text) =
      .ok program) :
    Block.parse (outer ++ exchange.brace :: exchange.other) = .ok program := by
  have beside : exchange.Beside _ _ := .before outer .start
  have carries := carries_sequence
    (depthFor (outer ++ exchange.brace :: exchange.text).length) false beside
  have enough :
      16 * (⟨outer ++ exchange.brace :: exchange.other, .start⟩ :
        Cursor).rest.length + 14 ≤
      exchange.extra + depthFor
        (outer ++ exchange.brace :: exchange.text).length := by
    simp [extra, depthFor]
    omega
  rw [sequence_eq_fully enough] at carries
  rw [Block.parse_eq] at parsed ⊢
  cases read : fully (sequence · false)
    ⟨outer ++ exchange.brace :: exchange.text, .start⟩ with
  | error cause =>
      rw [read] at parsed
      cases parsed
  | ok result =>
      obtain ⟨expressions, after⟩ := result
      rw [show sequence _ false
        ⟨outer ++ exchange.brace :: exchange.text, .start⟩ = _ from read]
          at carries
      obtain ⟨⟨_, otherAfter⟩, otherRead, rfl, _⟩ := carries
      rw [otherRead, beside.alike.position]
      rw [read] at parsed
      exact parsed

end Exchange

end EffectScript
