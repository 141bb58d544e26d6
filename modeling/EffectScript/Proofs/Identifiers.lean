import EffectScript.Proofs.Evaluation
import EffectScript.Proofs.PlainParser
import EffectScript.Proofs.Sketch

/-!
# Names of source texts

Every name that a parsed program reads or writes was an identifier token, and
identifier tokens are words. In particular no source text can mention the name
of the script.
-/

namespace EffectScript

/-- What a source text may use: words as names, and anything else. -/
def Vocabulary.source : Vocabulary := ⟨isIdentifier, true⟩

@[simp]
theorem Vocabulary.names_source : Vocabulary.source.names = isIdentifier := rfl

@[simp]
theorem Vocabulary.repetition_source :
    Vocabulary.source.repetition = true := rfl

/-! ## Tokens -/

/-- The identifiers among the tokens are words. -/
def Spelled (tokens : List Token) : Prop :=
  ∀ token ∈ tokens, ∀ name, token.kind = .ident name → isIdentifier name

namespace Lexer

theorem isIdentifier_takeWhile {first : Char}
    {rest : List Char}
    (starts : isWordStart first) :
    isIdentifier (String.ofList ((first :: rest).takeWhile isWordPart)) := by
  have part := isWordPart_of_isWordStart starts
  simp only [isIdentifier, List.takeWhile_cons, part, if_true,
    String.toList_ofList, starts, Bool.true_and]
  exact List.all_takeWhile

/-- An identifier lexeme is a word. -/
theorem isIdentifier_of_readLexeme {position : Position}
    {first : Char} {rest : List Char} {lexeme : Lexeme}
    (read : readLexeme position first rest = .ok lexeme)
    {name : String}
    (identifier : lexeme.kind = .ident name) :
    isIdentifier name := by
  unfold readLexeme at read
  split at read
  next mark _ =>
    cases read
    unfold readMark at identifier
    split at identifier <;> cases identifier
  next =>
    split at read
    · have noIdentifier : ∀ {position done text lexeme},
          readString position done text = .ok lexeme →
          lexeme.kind ≠ .ident name := by
        intro position done text lexeme readText
        fun_induction readString position done text <;> simp_all
        subst readText
        simp
      exact absurd identifier (noIdentifier read)
    · split at read
      · unfold readNumber at read
        simp only at read
        split at read
        · cases read
          cases identifier
        · split at read
          · cases read
            cases identifier
          · cases read
      · split at read
        next starts =>
          cases read
          simp only [readWord] at identifier
          split at identifier
          · cases identifier
          · cases identifier
            exact isIdentifier_takeWhile starts
        next => cases read

theorem scanFrom_spelled {position : Position}
    {text : List Char} {tokens : List Token}
    (scanned : scanFrom position text = .ok tokens) :
    Spelled tokens := by
  fun_induction scanFrom position text generalizing tokens
  case case1 =>
    cases scanned
    intro token member name identifier
    cases List.mem_singleton.1 member
    cases identifier
  case case2 => cases scanned
  case case3 => cases scanned
  case case4 lexeme read _ others rest inner =>
    cases scanned
    intro token member name identifier
    rcases List.mem_cons.1 member with rfl | later
    · exact isIdentifier_of_readLexeme read identifier
    · exact inner rest token later name identifier

end Lexer

/-! ## Cursors -/

/-- The identifiers that a cursor has still to read are words. -/
abbrev Cursor.Spelled (cursor : Cursor) : Prop :=
  EffectScript.Spelled cursor.rest

namespace Cursor

variable {cursor after : Cursor} {mark : Mark}

theorem Spelled.advance (spelled : cursor.Spelled) :
    cursor.advance.Spelled := by
  unfold Cursor.advance
  split
  · exact spelled
  next token rest restEq =>
    split
    · exact spelled
    · intro other member
      exact spelled other (restEq ▸ List.mem_cons_of_mem _ member)

theorem Spelled.peek?
    (spelled : cursor.Spelled)
    {name : String}
    (identifier : cursor.peek? = some (.ident name)) :
    isIdentifier name := by
  unfold Cursor.peek? at identifier
  split at identifier
  · cases identifier
  next token rest restEq =>
    split at identifier
    · cases identifier
    · exact spelled token (restEq ▸ List.mem_cons_self) name
        (Option.some.inj identifier)

theorem Spelled.accept?
    (spelled : cursor.Spelled)
    (accepted : cursor.accept? mark = some after) :
    after.Spelled := by
  unfold Cursor.accept? at accepted
  split at accepted
  · cases accepted
    exact spelled.advance
  · cases accepted

theorem Spelled.operator?
    (spelled : cursor.Spelled)
    {level : Precedence} {op : BinaryOp}
    (found : cursor.operator? level = some (op, after)) :
    after.Spelled := by
  unfold Cursor.operator? at found
  split at found
  · obtain ⟨_, _, result⟩ := Option.map_eq_some_iff.1 found
    cases result
    exact spelled.advance
  · cases found

theorem Spelled.skipSemicolons (spelled : cursor.Spelled) :
    cursor.skipSemicolons.Spelled := by
  have skips : ∀ (tokens : List Token) (previous : Position),
      EffectScript.Spelled tokens →
      (skipSemicolonsFrom previous tokens).Spelled := by
    intro tokens
    induction tokens with
    | nil => exact fun _ known => known
    | cons token rest inner =>
        intro previous known
        simp only [skipSemicolonsFrom]
        split
        · exact inner _ fun other member =>
            known other (List.mem_cons_of_mem _ member)
        · exact known
  exact skips cursor.rest cursor.previous spelled

end Cursor

/-! ## Parsing -/

namespace Parser

variable {α β : Type} {good : α → Prop} {better : β → Prop} {cursor : Cursor}
    {bound : Nat}

/-- Whatever the parser reads is good, and the identifiers that are left are
words. -/
def Parses (good : α → Prop) (parsed : Except SourceError (α × Cursor)) :
    Prop :=
  ∀ result after, parsed = .ok (result, after) → good result ∧ after.Spelled

theorem Parses.ok {result : α} {after : Cursor}
    (isGood : good result) (spelled : after.Spelled) :
    Parses good (.ok (result, after)) := by
  rintro _ _ ⟨⟩
  exact ⟨isGood, spelled⟩

theorem Parses.error {error : SourceError} : Parses good (.error error) := by
  rintro _ _ ⟨⟩

theorem Parses.bind
    {first : Except SourceError (α × Cursor)}
    {rest : α × Cursor → Except SourceError (β × Cursor)}
    (early : Parses good first)
    (late : ∀ result after, good result → after.Spelled →
      Parses better (rest (result, after))) :
    Parses better (first >>= rest) := by
  intro result after parsed
  obtain ⟨⟨value, next⟩, firstParsed, restParsed⟩ := Outcome.bind_eq_ok.1 parsed
  obtain ⟨isGood, spelled⟩ := early value next firstParsed
  exact late value next isGood spelled result after restParsed

/-- Reading a mark and going on. -/
theorem Parses.expect
    (spelled : cursor.Spelled)
    {mark : Mark} {rest : Cursor → Except SourceError (β × Cursor)}
    (late : ∀ after, after.Spelled → Parses better (rest after)) :
    Parses better (cursor.expect mark >>= rest) := by
  intro result after parsed
  obtain ⟨next, expected, restParsed⟩ := Outcome.bind_eq_ok.1 parsed
  refine late next ?_ result after restParsed
  unfold Cursor.expect at expected
  split at expected
  · cases expected
    exact spelled.advance
  · cases expected

theorem parses_identifier (spelled : cursor.Spelled) :
    Parses (fun name => isIdentifier name) cursor.identifier := by
  unfold Cursor.identifier
  split
  next name peeked => exact .ok (spelled.peek? peeked) spelled.advance
  next => exact .error

theorem parses_moreParameters (spelled : cursor.Spelled) :
    Parses (fun _ => True) (moreParameters bound cursor) := by
  induction bound generalizing cursor with
  | zero => exact .error
  | succ bound inner =>
      simp only [moreParameters, plain, pure_bind]
      split
      next afterComma accepted =>
        refine (parses_identifier (spelled.accept? accepted)).bind
          fun name after _ spelled => ?_
        exact (inner spelled).bind fun names after _ spelled =>
          .ok trivial spelled
      next => exact .expect spelled fun after spelled => .ok trivial spelled

theorem parses_parameters (spelled : cursor.Spelled) :
    Parses (fun _ => True) (parameters bound cursor) := by
  simp only [parameters, plain, pure_bind]
  split
  next afterParen accepted => exact .ok trivial (spelled.accept? accepted)
  next =>
    refine (parses_identifier spelled).bind fun name after _ spelled => ?_
    exact (parses_moreParameters spelled).bind fun names after _ spelled =>
      .ok trivial spelled

mutual

/-- A parsed expression uses words as names. -/
theorem parses_expression
    (bound : Nat)
    {cursor : Cursor}
    (spelled : cursor.Spelled) :
    Parses (fun parsed => parsed.isWithin .source)
      (expression bound cursor) := by
  match bound with
  | 0 => exact .error
  | bound + 1 =>
      simp only [expression, plain, pure_bind]
      refine (parses_binary bound .equality spelled).bind
        fun target after targetWithin spelled => ?_
      simp only
      split
      next afterMark accepted =>
        refine (parses_expression bound (spelled.accept? accepted)).bind
          fun value after valueWithin spelled => ?_
        exact .ok (by simp [Expr.isWithin, targetWithin, valueWithin]) spelled
      next => exact .ok targetWithin spelled

theorem parses_binary
    (bound : Nat) (level : Precedence)
    {cursor : Cursor}
    (spelled : cursor.Spelled) :
    Parses (fun parsed => parsed.isWithin .source)
      (binary bound level cursor) := by
  match bound with
  | 0 => exact .error
  | bound + 1 =>
      simp only [binary]
      exact (parses_operand bound level spelled).bind
          fun left after within spelled =>
        parses_moreOperands bound level within spelled

theorem parses_moreOperands
    (bound : Nat) (level : Precedence)
    {left : Expr} {cursor : Cursor}
    (within : left.isWithin .source)
    (spelled : cursor.Spelled) :
    Parses (fun parsed => parsed.isWithin .source)
      (moreOperands bound level left cursor) := by
  match bound with
  | 0 => exact .error
  | bound + 1 =>
      simp only [moreOperands, plain, pure_bind]
      split
      next op afterOp found =>
        refine (parses_operand bound level (spelled.operator? found)).bind
          fun right after rightWithin spelled => ?_
        exact parses_moreOperands bound level
          (by simp [Expr.isWithin, within, rightWithin]) spelled
      next => exact .ok within spelled

theorem parses_operand
    (bound : Nat) (level : Precedence)
    {cursor : Cursor}
    (spelled : cursor.Spelled) :
    Parses (fun parsed => parsed.isWithin .source)
      (operand bound level cursor) := by
  match bound with
  | 0 => exact .error
  | bound + 1 =>
      simp only [operand]
      split
      next tighter _ => exact parses_binary bound tighter spelled
      next => exact parses_unary bound spelled

theorem parses_unary
    (bound : Nat)
    {cursor : Cursor}
    (spelled : cursor.Spelled) :
    Parses (fun parsed => parsed.isWithin .source) (unary bound cursor) := by
  match bound with
  | 0 => exact .error
  | bound + 1 =>
      simp only [unary, plain, pure_bind]
      split
      · split
        · exact (parses_unary bound spelled.advance).bind
              fun inner after within spelled =>
            .ok within spelled
        · exact parses_call bound spelled
      · exact parses_call bound spelled

theorem parses_call (bound : Nat) {cursor : Cursor} (spelled : cursor.Spelled) :
    Parses (fun parsed => parsed.isWithin .source) (call bound cursor) := by
  match bound with
  | 0 => exact .error
  | bound + 1 =>
      simp only [call]
      exact (parses_primary bound spelled).bind
          fun callee after within spelled =>
        parses_moreCalls bound within spelled

theorem parses_moreCalls
    (bound : Nat)
    {callee : Expr} {cursor : Cursor}
    (within : callee.isWithin .source)
    (spelled : cursor.Spelled) :
    Parses (fun parsed => parsed.isWithin .source)
      (moreCalls bound callee cursor) := by
  match bound with
  | 0 => exact .error
  | bound + 1 =>
      simp only [moreCalls, plain, pure_bind]
      split
      · refine (parses_arguments bound spelled.advance).bind
          fun arguments after argumentsWithin spelled => ?_
        exact parses_moreCalls bound
          (by simp [Expr.isWithin, within, argumentsWithin]) spelled
      · exact .ok within spelled

theorem parses_arguments
    (bound : Nat)
    {cursor : Cursor}
    (spelled : cursor.Spelled) :
    Parses (fun parsed => areWithin .source parsed)
      (arguments bound cursor) := by
  match bound with
  | 0 => exact .error
  | bound + 1 =>
      simp only [arguments, plain, pure_bind]
      split
      next afterParen accepted => exact .ok rfl (spelled.accept? accepted)
      next =>
        refine (parses_expression bound spelled).bind
          fun first after firstWithin spelled => ?_
        refine (parses_moreArguments bound spelled).bind
          fun others after othersWithin spelled => ?_
        exact .ok (by simp [areWithin, firstWithin, othersWithin]) spelled

theorem parses_moreArguments
    (bound : Nat)
    {cursor : Cursor}
    (spelled : cursor.Spelled) :
    Parses (fun parsed => areWithin .source parsed)
      (moreArguments bound cursor) := by
  match bound with
  | 0 => exact .error
  | bound + 1 =>
      simp only [moreArguments, plain, pure_bind]
      split
      next afterComma accepted =>
        refine (parses_expression bound (spelled.accept? accepted)).bind
          fun first after firstWithin spelled => ?_
        refine (parses_moreArguments bound spelled).bind
          fun others after othersWithin spelled => ?_
        exact .ok (by simp [areWithin, firstWithin, othersWithin]) spelled
      next => exact .expect spelled fun after spelled => .ok rfl spelled

theorem parses_primary
    (bound : Nat)
    {cursor : Cursor}
    (spelled : cursor.Spelled) :
    Parses (fun parsed => parsed.isWithin .source) (primary bound cursor) := by
  match bound with
  | 0 => exact .error
  | bound + 1 =>
      simp only [primary, plain, pure_bind]
      split
      next name peeked => exact .ok (spelled.peek? peeked) spelled.advance
      next =>
        refine (parses_expression bound spelled.advance).bind
          fun inner after within spelled => ?_
        exact .expect spelled fun after spelled => .ok within spelled
      next =>
        exact (parses_block bound spelled).bind fun body after within spelled =>
          .ok within spelled
      next => exact parses_branch bound spelled
      next =>
        refine (parses_expression bound spelled.advance).bind
          fun condition after conditionWithin spelled => ?_
        refine (parses_block bound spelled).bind
          fun body after bodyWithin spelled => ?_
        exact .ok (by simp [Expr.isWithin, conditionWithin, bodyWithin]) spelled
      next =>
        refine (parses_identifier spelled.advance).bind
          fun name after identifier spelled => ?_
        refine .expect spelled fun after spelled => ?_
        refine (parses_parameters spelled).bind fun names after _ spelled => ?_
        refine (parses_block bound spelled).bind
          fun body after within spelled => ?_
        exact .ok (by simp [Expr.isWithin, identifier, within]) spelled
      next =>
        refine (parses_block bound spelled.advance).bind
          fun body after bodyWithin spelled => ?_
        refine (parses_clauses bound spelled).bind
          fun clauses after clausesWithin spelled => ?_
        simp only
        split
        · exact .error
        · exact .ok (by simp [Expr.isWithin, bodyWithin, clausesWithin]) spelled
      next =>
        refine (parses_identifier spelled.advance).bind
          fun effect after _ spelled => ?_
        simp only
        split
        · split
          next afterParen accepted =>
            exact .ok rfl (spelled.advance.accept? accepted)
          next =>
            refine (parses_expression bound spelled.advance).bind
              fun payload after within spelled => ?_
            exact .expect spelled fun after spelled => .ok within spelled
        · exact .ok rfl spelled
      next =>
        split
        · exact .ok rfl spelled.advance
        · exact .error
      next => exact .error

theorem parses_branch
    (bound : Nat)
    {cursor : Cursor}
    (spelled : cursor.Spelled) :
    Parses (fun parsed => parsed.isWithin .source) (branch bound cursor) := by
  match bound with
  | 0 => exact .error
  | bound + 1 =>
      simp only [branch, plain, pure_bind]
      refine (parses_expression bound spelled.advance).bind
        fun condition after conditionWithin spelled => ?_
      refine (parses_block bound spelled).bind
        fun consequence after consequenceWithin spelled => ?_
      simp only
      split
      · split
        · refine (parses_branch bound spelled.advance).bind
            fun alternative after within spelled => ?_
          exact .ok
            (by simp [Expr.isWithin, isWithinOptional, conditionWithin,
              consequenceWithin,
            within]) spelled
        · refine (parses_block bound spelled.advance).bind
            fun alternative after within spelled => ?_
          exact .ok
            (by simp [Expr.isWithin, isWithinOptional, conditionWithin,
              consequenceWithin,
            within]) spelled
      · exact .ok
          (by simp [Expr.isWithin, isWithinOptional, conditionWithin,
            consequenceWithin])
          spelled

theorem parses_clauses
    (bound : Nat)
    {cursor : Cursor}
    (spelled : cursor.Spelled) :
    Parses (fun parsed => areWithinClauses .source parsed)
      (clauses bound cursor) := by
  match bound with
  | 0 => exact .error
  | bound + 1 =>
      simp only [clauses, plain, pure_bind]
      split
      · refine (parses_identifier spelled.advance).bind
          fun effect after _ spelled => ?_
        refine .expect spelled fun after spelled => ?_
        refine (parses_identifier spelled).bind
          fun parameter after _ spelled => ?_
        refine .expect spelled fun after spelled => ?_
        refine (parses_block bound spelled).bind
          fun body after bodyWithin spelled => ?_
        refine (parses_clauses bound spelled).bind
          fun others after othersWithin spelled => ?_
        exact .ok (by simp [areWithinClauses, bodyWithin, othersWithin]) spelled
      · exact .ok rfl spelled

theorem parses_block
    (bound : Nat)
    {cursor : Cursor}
    (spelled : cursor.Spelled) :
    Parses (fun parsed => parsed.isWithin .source) (block bound cursor) := by
  match bound with
  | 0 => exact .error
  | bound + 1 =>
      simp only [block, plain, pure_bind]
      refine .expect spelled fun after spelled => ?_
      refine (parses_sequence bound true spelled.skipSemicolons).bind
        fun expressions after within spelled => ?_
      exact .expect spelled fun after spelled => .ok within spelled

theorem parses_sequence
    (bound : Nat) (braced : Bool)
    {cursor : Cursor}
    (spelled : cursor.Spelled) :
    Parses (fun parsed => areWithin .source parsed)
      (sequence bound braced cursor) := by
  match bound with
  | 0 => exact .error
  | bound + 1 =>
      simp only [sequence, plain, pure_bind]
      split
      · exact .ok rfl spelled
      · refine (parses_expression bound spelled).bind
          fun first after firstWithin spelled => ?_
        refine (parses_sequence bound braced spelled.skipSemicolons).bind
          fun others after othersWithin spelled => ?_
        exact .ok (by simp [areWithin, firstWithin, othersWithin]) spelled

end

end Parser

/-- A source text uses words as names. -/
theorem parseSource_isWithin {source : String}
    {program : Block}
    (parsed : parseSource source = .ok program) :
    program.isWithin .source := by
  obtain ⟨tokens, scanned, blockParsed⟩ := Outcome.bind_eq_ok.1 parsed
  obtain ⟨expressions, after, sequenceParsed, rfl⟩ :=
    Block.parse_eq_ok.1 blockParsed
  have spelled : (⟨tokens, Position.start⟩ : Cursor).Spelled :=
    Lexer.scanFrom_spelled scanned
  exact (Parser.parses_sequence _ false spelled _ _ sequenceParsed).1

end EffectScript
