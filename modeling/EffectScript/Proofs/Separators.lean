import EffectScript.Proofs.Surroundings

/-!
# Semicolons only separate

A semicolon can be put wherever an expression of a program or of a block begins
or has ended, and the program stays the same. The only exception is the front of
the program: there no semicolon is read.

The argument has two parts. Within one sequence of expressions, the reading goes
on behind the additional semicolon as it would have gone on without it, since no
expression looks at what stands before it. And around the block in which the
semicolon was put, the two readings go side by side: up to the opening brace
they see the same tokens, and behind the closing brace they are at the same
place again.
-/

namespace EffectScript

open EffectScript.Parser

/-! ## Places between expressions -/

/-- Whole expressions and semicolons lead from the one cursor to the other. -/
inductive Cursor.Between : Cursor → Cursor → Prop where
  | here (cursor : Cursor) : Between cursor cursor
  | semicolon {cursor last : Cursor}
      (next : cursor.peek? = some (.mark .semicolon))
      (others : Between cursor.advance last) : Between cursor last
  | expression {cursor after last : Cursor} {expression : Expr}
      (read : fully Parser.expression cursor = .ok (expression, after))
      (others : Between after last) : Between cursor last

/-- Between the two lists of tokens an expression of the program or of a block
begins or has ended: whole expressions and semicolons lead there from the front
of the program or from an opening brace. -/
def IsBoundary (before after : List Token) : Prop :=
  ∃ previous, Cursor.Between ⟨before ++ after, .start⟩ ⟨after, previous⟩ ∨
    ∃ outer brace inner, brace.kind = .mark .leftBrace ∧
      before = outer ++ brace :: inner ∧
      Cursor.Between ⟨inner ++ after, brace.position⟩ ⟨after, previous⟩

/-! ## Expressions do not look back -/

namespace Parser

open Reader

section Fresh

variable {cursor other : Cursor} {kind : TokenKind}

theorem peek?_fresh (same : other.rest = cursor.rest) :
    other.peek? = cursor.peek? := by
  rw [Cursor.peek?, Cursor.peek?, same]

theorem position_fresh (same : other.rest = cursor.rest) :
    other.position = cursor.position := by
  rw [Cursor.position, Cursor.position, same]

theorem advance_fresh
    (same : other.rest = cursor.rest)
    (peeked : cursor.peek? = some kind) :
    other.advance = cursor.advance := by
  obtain ⟨rest, previous⟩ := cursor
  obtain ⟨otherRest, otherPrevious⟩ := other
  cases same
  cases rest with
  | nil => cases peeked
  | cons token rest =>
      have inside : token.kind ≠ .endOfInput := by
        intro last
        simp [Cursor.peek?, last] at peeked
      simp [Cursor.advance, inside]

theorem refuse_fresh (same : other.rest = cursor.rest) (wanted : Expectation) :
    other.refuse wanted = cursor.refuse wanted := by
  rw [Cursor.refuse, Cursor.refuse, peek?_fresh same, position_fresh same]

theorem expect_fresh (same : other.rest = cursor.rest) (mark : Mark) :
    other.expect mark = cursor.expect mark := by
  unfold Cursor.expect Cursor.sees
  rw [peek?_fresh same, refuse_fresh same]
  split
  next seen => simp only [plain, advance_fresh same (of_decide_eq_true seen)]
  next => rfl

theorem behindMark_fresh {α : Type} {mark : Mark}
    {next : Reader α}
    (same : other.rest = cursor.rest) :
    behindMark mark next other = behindMark mark next cursor := by
  rw [behindMark, behindMark, expect_fresh same]

theorem block_fresh (bound : Nat) (same : other.rest = cursor.rest) :
    block bound other = block bound cursor := by
  cases bound with
  | zero => rw [block, block, position_fresh same]
  | succ bound => rw [block, block, expect_fresh same, position_fresh same]

theorem branch_fresh
    (bound : Nat)
    (same : other.rest = cursor.rest)
    (peeked : cursor.peek? = some kind) :
    branch bound other = branch bound cursor := by
  cases bound with
  | zero => rw [branch, branch, position_fresh same]
  | succ bound =>
      simp only [branch, plain, pure_bind, position_fresh same,
        advance_fresh same peeked]

theorem primary_fresh (bound : Nat) (same : other.rest = cursor.rest) :
    primary bound other = primary bound cursor := by
  cases bound with
  | zero => rw [primary, primary, position_fresh same]
  | succ bound =>
      simp only [primary, plain, pure_bind, peek?_fresh same,
        position_fresh same, refuse_fresh same, block_fresh bound same]
      split
      next peeked => rw [advance_fresh same peeked]
      next peeked => rw [advance_fresh same peeked]
      next => rfl
      next peeked => rw [branch_fresh bound same peeked]
      next peeked => rw [advance_fresh same peeked]
      next peeked => rw [advance_fresh same peeked]
      next peeked => rw [advance_fresh same peeked]
      next peeked => rw [advance_fresh same peeked]
      next peeked => rw [advance_fresh same peeked]
      next => rfl

theorem unary_fresh (bound : Nat) (same : other.rest = cursor.rest) :
    unary bound other = unary bound cursor := by
  have call_fresh : ∀ bound, call bound other = call bound cursor := by
    intro bound
    cases bound with
    | zero => rw [call, call, position_fresh same]
    | succ bound => rw [call, call, primary_fresh bound same]
  cases bound with
  | zero => rw [unary, unary, position_fresh same]
  | succ bound =>
      simp only [unary, plain, pure_bind, peek?_fresh same,
        position_fresh same, call_fresh]
      split
      next peeked => rw [advance_fresh same peeked]
      next => rfl

theorem binary_fresh
    (bound : Nat) (level : Precedence)
    (same : other.rest = cursor.rest) :
    binary bound level other = binary bound level cursor := by
  match bound with
  | 0 => rw [binary, binary, position_fresh same]
  | 1 => rw [binary, binary, operand, operand, position_fresh same]
  | bound + 2 =>
      simp only [binary, operand, unary_fresh bound same,
        binary_fresh bound _ same]

/-- It does not matter what stands before an expression. -/
theorem expression_fresh (bound : Nat) (same : other.rest = cursor.rest) :
    expression bound other = expression bound cursor := by
  cases bound with
  | zero => rw [expression, expression, position_fresh same]
  | succ bound => rw [expression, expression, binary_fresh bound _ same]

end Fresh

/-! ## Where no expression begins -/

section Barren

variable {cursor : Cursor}

theorem fully_primary_refuses
    (barren : ∀ kind, cursor.peek? = some kind → kind.isOpening = false) :
    fully primary cursor = .error (cursor.refuse .expression) := by
  rw [fully_eq primary, primary]
  split
  next peeked => cases barren _ peeked
  next peeked => cases barren _ peeked
  next peeked => cases barren _ peeked
  next peeked => cases barren _ peeked
  next peeked => cases barren _ peeked
  next peeked => cases barren _ peeked
  next peeked => cases barren _ peeked
  next peeked => cases barren _ peeked
  next peeked =>
    split
    next value read =>
      rw [← Literal.ofToken?_eq_some_iff.1 read] at peeked
      have opening : value.token.isOpening = true := by
        cases value with
        | bool truth => cases truth <;> rfl
        | _ => rfl
      rw [barren _ peeked] at opening
      cases opening
    next => rfl
  next => rfl

theorem fully_expression_refuses
    (barren : ∀ kind, cursor.peek? = some kind → kind.isOpening = false) :
    fully expression cursor = .error (cursor.refuse .expression) := by
  have plain : ∀ op : UnaryOp, cursor.peek? ≠ some (.mark op.mark) := by
    intro op peeked
    have closed := barren _ peeked
    cases op <;> cases closed
  have operands : fully (operand · .product) cursor = .error
      (cursor.refuse .expression) := by
    rw [fully_operand]
    show fully unary cursor = _
    rw [fully_unary_call plain, fully_call, fully_primary_refuses barren]
    rfl
  have onward : ∀ looser tighter : Precedence, looser.tighter? = some tighter →
      fully (operand · tighter) cursor = .error (cursor.refuse .expression) →
      fully (operand · looser) cursor = .error (cursor.refuse .expression) := by
    intro looser tighter next refused
    rw [fully_operand, next]
    show fully (binary · tighter) cursor = _
    rw [fully_binary, refused]
    rfl
  have loosest : fully (operand · .equality) cursor = .error
      (cursor.refuse .expression) :=
    onward _ .ordering rfl <| onward _ .sum rfl <|
      onward _ .product rfl operands
  rw [fully_expression, fully_binary, loosest]
  rfl

end Barren

/-! ## Within one sequence -/

section Sequences

variable {braced : Bool} {cursor other after last : Cursor}
    {expressions : List Expr} {expression : Expr}

/-- Where an expression is read, it begins with the next token. -/
theorem opening_of_read
    (read : fully Parser.expression cursor = .ok (expression, after)) :
    ∃ kind, cursor.peek? = some kind ∧ kind.isOpening = true := by
  by_contra barren
  have refused : fully Parser.expression cursor = .error
      (cursor.refuse .expression) :=
    fully_expression_refuses fun kind peeked =>
      eq_false_of_ne_true fun opening => barren ⟨kind, peeked, opening⟩
  rw [refused] at read
  cases read

/-- Where an expression begins, its sequence goes on. -/
theorem goesOn_of_read
    (read : fully Parser.expression cursor = .ok (expression, after)) :
    ¬ (cursor.peek?.isNone || (braced && cursor.sees .rightBrace)) = true := by
  obtain ⟨kind, peeked, opening⟩ := opening_of_read read
  have different : kind ≠ .mark .rightBrace := by
    rintro rfl
    cases opening
  simp [Cursor.sees, peeked, different]

/-- Where an expression begins, no semicolon stands. -/
theorem solid_of_read
    (read : fully Parser.expression cursor = .ok (expression, after)) :
    Solid cursor.rest := by
  obtain ⟨kind, peeked, opening⟩ := opening_of_read read
  obtain ⟨token, rest_eq, rfl, _⟩ := Cursor.rest_eq_of_peek? peeked
  rw [rest_eq]
  rintro _ ⟨⟩ semicolon
  rw [semicolon] at opening
  cases opening

/-- A sequence that begins with an expression goes on behind it. -/
theorem fully_sequence_of_read
    (read : fully Parser.expression cursor = .ok (expression, after)) :
    fully (sequence · braced) cursor =
      map (expression :: ·) (sequenceOn braced) after := by
  rw [fully_sequence, if_neg (goesOn_of_read read), read]
  rfl

/-- It does not matter what stands before a sequence. -/
theorem fully_sequence_fresh
    (same : other.rest = cursor.rest)
    (read : fully (sequence · braced) cursor = .ok (expressions, last)) :
    ∃ previous, fully (sequence · braced) other =
      .ok (expressions, ⟨last.rest, previous⟩) := by
  have first : fully Parser.expression other =
      fully Parser.expression cursor := by
    rw [fully, fully, same]
    exact expression_fresh _ same
  rw [fully_sequence] at read ⊢
  unfold Cursor.sees at read ⊢
  rw [peek?_fresh same, first]
  split at read
  next ended =>
    cases read
    rw [if_pos ended]
    exact ⟨other.previous, same ▸ rfl⟩
  next goesOn =>
    rw [if_neg goesOn]
    exact ⟨last.previous, read⟩

theorem sequenceOn_cons {semicolon : Token}
    (separates : semicolon.kind = .mark .semicolon)
    (rest : List Token) (previous : Position) :
    sequenceOn braced ⟨semicolon :: rest, previous⟩ =
      sequenceOn braced ⟨rest, semicolon.position⟩ := by
  simp [sequenceOn, Cursor.skipSemicolons, Cursor.skipSemicolonsFrom, separates]

theorem sequenceOn_advance (next : cursor.peek? = some (.mark .semicolon)) :
    sequenceOn braced cursor = sequenceOn braced cursor.advance := by
  obtain ⟨token, rest_eq, separates, _, previous_eq⟩ :=
    Cursor.rest_eq_of_peek? next
  calc sequenceOn braced cursor
      = sequenceOn braced ⟨token :: cursor.advance.rest, cursor.previous⟩ := by
        rw [← rest_eq]
    _ = sequenceOn braced ⟨cursor.advance.rest, token.position⟩ :=
      sequenceOn_cons separates _ _
    _ = sequenceOn braced cursor.advance := by rw [← previous_eq]

theorem skipSemicolons_fresh (same : other.rest = cursor.rest) :
    other.skipSemicolons.rest = cursor.skipSemicolons.rest := by
  obtain ⟨rest, previous⟩ := cursor
  obtain ⟨otherRest, otherPrevious⟩ := other
  cases same
  cases rest with
  | nil => rfl
  | cons token rest =>
      simp only [Cursor.skipSemicolons, Cursor.skipSemicolonsFrom]
      split <;> rfl

theorem sequenceOn_fresh
    (same : other.rest = cursor.rest)
    (read : sequenceOn braced cursor = .ok (expressions, last)) :
    ∃ previous, sequenceOn braced other =
      .ok (expressions, ⟨last.rest, previous⟩) :=
  fully_sequence_fresh (skipSemicolons_fresh same) read

/-- A semicolon that is put between two expressions of a sequence, before its
first or behind its last one does not change the expressions that are read, nor
the place where the reading stops. -/
theorem sequenceOn_semicolon
    (braced : Bool)
    {semicolon : Token}
    (separates : semicolon.kind = .mark .semicolon)
    {place : Cursor}
    (between : Cursor.Between cursor place) :
    ∃ used, cursor.rest = used ++ place.rest ∧ ∀ expressions last,
      sequenceOn braced cursor = .ok (expressions, last) →
        ∃ previous, sequenceOn braced
            ⟨used ++ semicolon :: place.rest, cursor.previous⟩ =
          .ok (expressions, ⟨last.rest, previous⟩) := by
  induction between with
  | here cursor =>
      refine ⟨[], rfl, fun expressions last read => ?_⟩
      rw [List.nil_append, sequenceOn_cons separates]
      exact sequenceOn_fresh (by rfl) read
  | @semicolon cursor place next others inner =>
      obtain ⟨token, rest_eq, kind_eq, _, previous_eq⟩ :=
        Cursor.rest_eq_of_peek? next
      obtain ⟨used, used_eq, reads⟩ := inner
      refine ⟨token :: used, by rw [rest_eq, used_eq]; rfl,
        fun expressions last read => ?_⟩
      rw [List.cons_append, sequenceOn_cons kind_eq, ← previous_eq]
      exact reads expressions last (sequenceOn_advance next ▸ read)
  | @expression cursor after place expression first others inner =>
      obtain ⟨used, used_eq, reads⟩ := inner
      have foresees := foresees_expression (depthFor cursor.rest.length) cursor
      rw [show Parser.expression _ cursor = _ from first] at foresees
      obtain ⟨usedFirst, passes⟩ := foresees
      refine ⟨usedFirst ++ used, by
        rw [passes.rest_eq, used_eq, List.append_assoc],
        fun expressions last read => ?_⟩
      -- The expression is read as before: behind it stands the same token or
      -- the additional semicolon.
      have again := passes.again (used ++ semicolon :: place.rest) (by
        cases used with
        | nil => exact .inr (by rintro _ ⟨⟩; rw [separates]; rfl)
        | cons token used => exact .inl (used_eq ▸ rfl))
      have skipped : ∀ {cursor after : Cursor}, fully Parser.expression cursor =
          .ok (expression, after) →
          sequenceOn braced cursor =
            map (expression :: ·) (sequenceOn braced) after := by
        intro cursor after read
        rw [sequenceOn, skipSemicolons_of_solid (solid_of_read read)]
        exact fully_sequence_of_read read
      rw [skipped first] at read
      obtain ⟨⟨others, stop⟩, othersRead, result⟩ := Outcome.bind_eq_ok.1 read
      cases result
      obtain ⟨previous, otherRead⟩ := reads others last othersRead
      refine ⟨previous, ?_⟩
      rw [List.append_assoc, skipped again, map, andThen, otherRead]
      rfl

end Sequences

end Parser

/-! ## Programs -/

section Programs

open Reader

variable {semicolon : Token} {before after : List Token} {program : Block}

/-- In front of a program, a semicolon is refused. -/
theorem Block.parse_semicolon
    (separates : semicolon.kind = .mark .semicolon)
    (rest : List Token) :
    Block.parse (semicolon :: rest) =
      .error ⟨.expected .expression (some (.mark .semicolon)),
        semicolon.position⟩ := by
  have peeked : (⟨semicolon :: rest, .start⟩ : Cursor).peek? =
      some (.mark .semicolon) := by
    simp [Cursor.peek?, separates]
  have refused : fully expression ⟨semicolon :: rest, .start⟩ =
      .error (Cursor.refuse ⟨semicolon :: rest, .start⟩ .expression) := by
    refine fully_expression_refuses fun kind seen => ?_
    rw [peeked] at seen
    cases seen
    rfl
  rw [Block.parse_eq_error_iff, fully_sequence,
    if_neg (by simp [peeked]), refused]
  simp only [Cursor.refuse, peeked]
  rfl

/-- What stands behind an opening brace is exchanged for the same with a
semicolon more. -/
def Exchange.additional
    (separates : semicolon.kind = .mark .semicolon)
    {brace : Token}
    (opens : brace.kind = .mark .leftBrace)
    {inner : List Token} {previous : Position}
    (between : Cursor.Between ⟨inner ++ after, brace.position⟩
      ⟨after, previous⟩) :
    Exchange where
  brace := brace
  text := inner ++ after
  other := inner ++ semicolon :: after
  opens := opens
  reads := by
    intro start body stop read
    obtain ⟨used, used_eq, reads⟩ := sequenceOn_semicolon true separates between
    obtain rfl : inner = used := List.append_cancel_right used_eq
    have entered : ∀ tokens, fully block ⟨brace :: tokens, start⟩ =
        blockFrom brace.position ⟨tokens, brace.position⟩ := by
      intro tokens
      have seen : (⟨brace :: tokens, start⟩ : Cursor).sees
          .leftBrace = true := by
        simp [Cursor.sees, Cursor.peek?, opens]
      have advanced : (⟨brace :: tokens, start⟩ : Cursor).advance =
          ⟨tokens, brace.position⟩ := by
        simp [Cursor.advance, opens]
      rw [fully_block_eq, behindMark, Cursor.expect, if_pos seen,
        plain.1, advanced]
      rfl
    rw [entered] at read ⊢
    obtain ⟨⟨expressions, last⟩, sequenceRead, closed⟩ :=
      Outcome.bind_eq_ok.1 read
    obtain ⟨previous, otherRead⟩ := reads expressions last sequenceRead
    rw [blockFrom, andThen, otherRead, ← closed]
    exact behindMark_fresh (by rfl)

/-- A semicolon at a boundary changes nothing, except in front of the
program. -/
theorem parse_additional_semicolon
    (separates : semicolon.kind = .mark .semicolon)
    (boundary : IsBoundary before after)
    (parsed : Block.parse (before ++ after) = .ok program) :
    Block.parse (before ++ semicolon :: after) =
      if before = [] then
        .error ⟨.expected .expression (some (.mark .semicolon)),
          semicolon.position⟩
      else .ok program := by
  obtain ⟨previous, inProgram | ⟨outer, brace, inner, opens, rfl, inBlock⟩⟩ :=
    boundary
  · cases before with
    | nil => exact Block.parse_semicolon separates after
    | cons token tokens =>
        have solid : ∀ rest, Solid (token :: rest) := by
          rintro rest _ ⟨⟩ first
          rw [List.cons_append, Block.parse_semicolon first] at parsed
          cases parsed
        have entered : ∀ rest, fully (sequence · false)
            ⟨token :: rest, .start⟩ =
            sequenceOn false ⟨token :: rest, .start⟩ := by
          intro rest
          rw [sequenceOn, skipSemicolons_of_solid (solid rest)]
        obtain ⟨used, used_eq, reads⟩ :=
          sequenceOn_semicolon false separates inProgram
        obtain rfl : token :: tokens = used := List.append_cancel_right used_eq
        rw [if_neg (List.cons_ne_nil token tokens), Block.parse_eq,
          List.cons_append, entered]
        rw [Block.parse_eq, List.cons_append, entered] at parsed
        cases read : sequenceOn false ⟨token :: (tokens ++ after), .start⟩ with
        | error cause =>
            rw [read] at parsed
            cases parsed
        | ok result =>
            obtain ⟨expressions, last⟩ := result
            obtain ⟨previous, otherRead⟩ := reads expressions last read
            rw [read] at parsed
            rw [show sequenceOn false
              ⟨token :: (tokens ++ semicolon :: after), .start⟩ = _
              from otherRead]
            exact parsed
  · rw [if_neg (by simp), List.append_assoc]
    exact (Exchange.additional separates opens inBlock).parse
      (by rwa [List.append_assoc] at parsed)

/-- A semicolon in the block `{ a b }`, between its two expressions. -/
theorem parse_semicolon_within_block :
    let before : List Token :=
      [⟨.mark .leftBrace, ⟨1, 1⟩⟩, ⟨.ident "a", ⟨1, 3⟩⟩]
    let after : List Token :=
      [⟨.ident "b", ⟨1, 5⟩⟩, ⟨.mark .rightBrace, ⟨1, 7⟩⟩, ⟨.endOfInput, ⟨1, 8⟩⟩]
    let semicolon : Token := ⟨.mark .semicolon, ⟨1, 4⟩⟩
    let program : Block :=
      ⟨[.block ⟨[.ident "a" ⟨1, 3⟩, .ident "b" ⟨1, 5⟩], ⟨1, 1⟩⟩], ⟨1, 1⟩⟩
    semicolon.kind = .mark .semicolon ∧ IsBoundary before after ∧
      Block.parse (before ++ after) = .ok program ∧
      Block.parse (before ++ semicolon :: after) = .ok program := by
  intro before after semicolon program
  have parsed : Block.parse (before ++ after) = .ok program := rfl
  have first : fully expression ⟨[⟨.ident "a", ⟨1, 3⟩⟩] ++ after, ⟨1, 1⟩⟩ =
      .ok (.ident "a" ⟨1, 3⟩, ⟨after, ⟨1, 3⟩⟩) := rfl
  have boundary : IsBoundary before after :=
    ⟨⟨1, 3⟩, .inr ⟨[], ⟨.mark .leftBrace, ⟨1, 1⟩⟩,
      [⟨.ident "a", ⟨1, 3⟩⟩], rfl, rfl, .expression first (.here _)⟩⟩
  exact ⟨rfl, boundary, parsed, parse_additional_semicolon rfl boundary parsed⟩

/-- So semicolons do not separate everywhere: `a` is a program, and `; a` is
none. -/
theorem not_all_semicolons_separate :
    ¬ ∀ (semicolon : Token) (before after : List Token) (program : Block),
      semicolon.kind = .mark .semicolon → IsBoundary before after →
        Block.parse (before ++ after) = .ok program →
          ∃ other, Block.parse (before ++ semicolon :: after) = .ok other ∧
            other.unplaced = program.unplaced := by
  intro separate
  obtain ⟨other, parsed, _⟩ := separate ⟨.mark .semicolon, ⟨1, 1⟩⟩ []
    [⟨.ident "a", ⟨1, 3⟩⟩, ⟨.endOfInput, ⟨1, 4⟩⟩]
    ⟨[.ident "a" ⟨1, 3⟩], ⟨1, 3⟩⟩ rfl ⟨.start, .inl (.here _)⟩ rfl
  cases parsed

end Programs

end EffectScript
