import EffectScript.Proofs.Arrangement
import EffectScript.Proofs.ParserRefusal

/-!
# Programs are refused at the first impossible token

Here each parser function is shown to decide by the next token alone, and what
it has begun is shown to be finished by a few tokens. The parser functions are
first written as readers in sequence; then it is said what finishes each of them
and what each of them foresees. An error of the parser therefore stands at the
end of the longest part of the tokens with which a program can begin.
-/

namespace EffectScript.Parser

open Reader

/-! ## Parser functions as readers in sequence -/

/-- Goes on behind the target of an assignment, if it is one. -/
def assignment (target : Expr) : Reader Expr := fun cursor =>
  match cursor.accept? .assign with
  | some afterMark =>
      map (Expr.assign target · target.position) (fully expression) afterMark
  | none => .ok (target, cursor)

theorem fully_expression_eq :
    fully expression = andThen (fully (binary · .equality)) assignment :=
  funext fully_expression

theorem fully_binary_eq (level : Precedence) :
    fully (binary · level) =
      andThen (fully (operand · level)) fun left =>
        fully (moreOperands · level left) :=
  funext (fully_binary level)

theorem fully_call_eq :
    fully call = andThen (fully primary) fun callee =>
      fully (moreCalls · callee) := funext fully_call

/-- Reads further expressions of a sequence, behind semicolons. -/
def sequenceOn (braced : Bool) : Reader (List Expr) := fun cursor =>
  fully (sequence · braced) cursor.skipSemicolons

/-- Reads a block behind its opening brace. -/
def blockFrom (position : Position) : Reader Block :=
  andThen (sequenceOn true) fun expressions =>
    behindMark .rightBrace (give ⟨expressions, position⟩)

theorem fully_block_eq (cursor : Cursor) :
    fully block cursor = behindMark .leftBrace
      (blockFrom cursor.position) cursor := fully_block cursor

/-- Reads a clause behind its keyword, and goes on behind it. -/
def clauseFrom {α : Type} (position : Position) (next : Clause → Reader α) :
    Reader α :=
  andThen Cursor.identifier fun effect => behindMark .leftParen <|
    andThen Cursor.identifier fun parameter => behindMark .rightParen <|
      andThen (fully block) fun body => next ⟨effect, parameter, body, position⟩

/-- The same with a bound. -/
def clauseWithin {α : Type}
    (bound : Nat) (position : Position)
    (later : Clause → Reader α) :
    Reader α := fun cursor => do
  let (effect, afterEffect) ← cursor.identifier
  let afterOpening ← afterEffect.expect .leftParen
  let (parameter, afterParameter) ← afterOpening.identifier
  let afterClosing ← afterParameter.expect .rightParen
  let (body, afterBody) ← block bound afterClosing
  later ⟨effect, parameter, body, position⟩ afterBody

theorem clauseWithin_bind {α β : Type}
    (bound : Nat) (position : Position)
    (later : Clause → Reader α)
    (next : α × Cursor → Except SourceError (β × Cursor))
    (cursor : Cursor) :
    clauseWithin bound position later cursor >>= next =
      clauseWithin bound position
        (fun clause after => later clause after >>= next) cursor := by
  simp only [clauseWithin, bind_assoc]

/-- Reads the clauses that follow a clause. -/
def clausesOn (first : Clause) : Reader (List Clause) :=
  map (first :: ·) (fully clauses)

theorem fully_clauses_handle {cursor : Cursor}
    (peeked : cursor.peek? = some (.keyword .handle)) :
    fully clauses cursor =
      clauseFrom cursor.position clausesOn cursor.advance :=
  (fully_clauses cursor).trans (if_pos peeked)

theorem clauses_handle {bound : Nat} {cursor : Cursor}
    (peeked : cursor.peek? = some (.keyword .handle)) :
    clauses (bound + 1) cursor =
      clauseWithin bound cursor.position
        (fun first after => clauses bound after >>= fun (others, last) =>
          .ok (first :: others, last))
        cursor.advance := by
  rw [clauses, if_pos peeked]
  rfl

/-- Reads the clauses of an attempt, of which there is at least one. -/
def handlers (body : Block) (position : Position) : Reader Expr := fun cursor =>
  fully clauses cursor >>= fun (clauses, after) =>
    if clauses.isEmpty then .error (after.refuse .handleClause)
    else .ok (.attempt body clauses position, after)

/-- Reads the clauses of an attempt that follow the first one. -/
def handlersOn (body : Block) (position : Position) (first : Clause) :
    Reader Expr :=
  map (fun others => Expr.attempt body (first :: others) position)
    (fully clauses)

theorem handlers_none {body : Block} {position : Position}
    {cursor : Cursor}
    (unhandled : cursor.peek? ≠ some (.keyword .handle)) :
    handlers body position cursor = .error (cursor.refuse .handleClause) := by
  rw [handlers, fully_clauses, if_neg unhandled]
  rfl

theorem handlers_handle {body : Block} {position : Position}
    {cursor : Cursor}
    (peeked : cursor.peek? = some (.keyword .handle)) :
    handlers body position cursor =
      clauseFrom cursor.position (handlersOn body position) cursor.advance := by
  rw [handlers, fully_clauses_handle peeked]
  simp only [clauseFrom, andThen, behindMark, clausesOn, map, give, bind_assoc,
    Outcome.ok_bind]
  rfl

/-- Reads what follows the first block of a choice. -/
def alternativeFrom
    (condition : Expr) (consequence : Block)
    (position : Position) : Reader Expr :=
  fun cursor =>
    if cursor.peek? = some (.keyword .branch) then
      map (fun other => Expr.branch condition consequence (some other) position)
        (fully branch) cursor
    else
      map
        (fun body => Expr.branch condition consequence
          (some (.block body)) position)
        (fully block) cursor

/-- Goes on behind the first block of a choice, if there is an alternative. -/
def alternative (condition : Expr) (consequence : Block) (position : Position) :
    Reader Expr :=
  fun cursor =>
    if cursor.peek? = some (.keyword .otherwise) then
      alternativeFrom condition consequence position cursor.advance
    else .ok (.branch condition consequence none position, cursor)

/-- Reads a choice behind its keyword. -/
def branchFrom (position : Position) : Reader Expr :=
  andThen (fully expression) fun condition =>
    andThen (fully block) fun consequence =>
      alternative condition consequence position

theorem fully_branch_eq {cursor : Cursor}
    (peeked : cursor.peek? = some (.keyword .branch)) :
    fully branch cursor = branchFrom cursor.position cursor.advance := by
  rw [fully_branch peeked]
  refine Outcome.bind_congr rfl fun condition _ =>
    Outcome.bind_congr rfl fun consequence _ => ?_
  obtain ⟨consequence, after⟩ := consequence
  simp only [alternative, alternativeFrom]
  split
  · split <;> rfl
  · rfl

/-- Reads an effect's payload and the closing parenthesis. -/
def payloadFrom (effect : String) (position : Position) :
    Reader Expr := fun cursor =>
  match cursor.accept? .rightParen with
  | some afterParen => .ok (.perform effect none position, afterParen)
  | none =>
      andThen (fully expression)
        (fun payload => behindMark .rightParen
          (give (.perform effect (some payload) position))) cursor

/-- Goes on behind the name of an effect. -/
def performFrom (position : Position) (effect : String) :
    Reader Expr := fun cursor =>
  if cursor.seesCall then payloadFrom effect position cursor.advance
  else .ok (.perform effect none position, cursor)

/-! ## What finishes each parser function -/

/-- A name finishes whatever an expression finishes. -/
def oneName : List Token := [.filling (.ident "x")]

/-- An empty block. -/
def noBlock :
    List Token := [.filling (.mark .leftBrace), .filling (.mark .rightBrace)]

theorem loose_cons {kind : TokenKind}
    (loose : kind.grip? = none)
    (rest : List Token) :
    Loose (.filling kind :: rest) := by
  rintro _ ⟨⟩
  exact loose

theorem finishes_identifier :
    Finishes Anything Anything oneName Cursor.identifier := by
  refine Finishes.step (give "x") (by simp) (fun there peeked _ => ?_) .done
    fun _ => trivial
  rw [Cursor.identifier, peeked]
  rfl

theorem finishes_primary : Finishes Loose Loose oneName (fully primary) := by
  refine ⟨.cons (by simp [Token.filling]) .nil, fun rest _ =>
    loose_cons rfl rest,
    fun rest previous _ => ?_⟩
  exact ⟨_, _, fully_primary_ident rfl⟩

theorem seesCall_of_loose {rest : List Token}
    {previous : Position}
    (loose : Loose rest) :
    (⟨rest, previous⟩ : Cursor).seesCall = false := by
  have other : (⟨rest, previous⟩ : Cursor).peek? ≠ some (.mark .leftParen) :=
    Cursor.peek?_of_loose loose rfl
  simp [Cursor.seesCall, Cursor.sees, other]

theorem finishes_moreCalls (callee : Expr) :
    Finishes Loose Loose [] (fully (moreCalls · callee)) := by
  refine (Finishes.give callee fun _ => id).congr fun rest previous loose => ?_
  rw [List.nil_append, fully_moreCalls, seesCall_of_loose loose]
  rfl

theorem finishes_call : Finishes Loose Loose oneName (fully call) :=
  fully_call_eq ▸ finishes_primary.andThen finishes_moreCalls

theorem operator?_of_loose {rest : List Token}
    {previous : Position}
    (loose : Loose rest) (level : Precedence) :
    (⟨rest, previous⟩ : Cursor).operator? level = none := by
  match found : (⟨rest, previous⟩ : Cursor).operator? level with
  | none => rfl
  | some (op, after) =>
      exact absurd (Cursor.peek?_of_operator? found).1
        (Cursor.peek?_of_loose loose op.grip?_mark)

theorem finishes_moreOperands (level : Precedence) (left : Expr) :
    Finishes Loose Loose [] (fully (moreOperands · level left)) := by
  refine (Finishes.give left fun _ => id).congr fun rest previous loose => ?_
  rw [List.nil_append, fully_moreOperands, operator?_of_loose loose]
  rfl

theorem finishes_unary : Finishes Loose Loose oneName (fully unary) := by
  refine finishes_call.congr fun rest previous _ =>
    fully_unary_call fun op => ?_
  cases op <;> simp [Cursor.peek?, oneName, Token.filling]

theorem finishes_binary_of_operand {level : Precedence}
    (finishes : Finishes Loose Loose oneName (fully (operand · level))) :
    Finishes Loose Loose oneName (fully (binary · level)) :=
  fully_binary_eq level ▸ finishes.andThen (finishes_moreOperands level)

theorem finishes_operand (level : Precedence) :
    Finishes Loose Loose oneName (fully (operand · level)) := by
  have onward : ∀ {looser tighter : Precedence}, looser.tighter? =
      some tighter →
      Finishes Loose Loose oneName (fully (operand · tighter)) →
      Finishes Loose Loose oneName (fully (operand · looser)) := by
    intro looser tighter next finishes
    refine (finishes_binary_of_operand finishes).congr fun rest previous _ => ?_
    rw [fully_operand, next]
  have product : Finishes Loose Loose oneName (fully (operand · .product)) :=
    finishes_unary.congr fun rest previous _ => by
      rw [fully_operand]
      rfl
  have sum : Finishes Loose Loose oneName (fully (operand · .sum)) :=
    onward rfl product
  have ordering : Finishes Loose Loose oneName (fully (operand · .ordering)) :=
    onward rfl sum
  cases level with
  | product => exact product
  | sum => exact sum
  | ordering => exact ordering
  | equality => exact onward rfl ordering

theorem accept?_of_loose {rest : List Token}
    {previous : Position} {mark : Mark} {grip : Nat}
    (loose : Loose rest)
    (grips : (TokenKind.mark mark).grip? = some grip) :
    (⟨rest, previous⟩ : Cursor).accept? mark = none := by
  simp [Cursor.accept?, Cursor.sees, Cursor.peek?_of_loose loose grips]

theorem finishes_assignment (target : Expr) :
    Finishes Loose Loose [] (assignment target) := by
  refine (Finishes.give target fun _ => id).congr fun rest previous loose => ?_
  rw [List.nil_append, assignment, accept?_of_loose loose rfl]
  rfl

theorem finishes_expression : Finishes Loose Loose oneName (fully expression) :=
  fully_expression_eq ▸
    (finishes_binary_of_operand (finishes_operand .equality)).andThen
      finishes_assignment

theorem finishes_closing {α : Type}
    {front : List Token → Prop} {mark : Mark}
    (result : α)
    (fit : ∀ rest, front (.filling (.mark mark) :: rest)) :
    Finishes front Anything [.filling (.mark mark)]
      (behindMark mark (give result)) :=
  Finishes.done.behindMark fit

theorem finishes_moreArguments :
    Finishes Loose Anything [.filling (.mark .rightParen)]
      (fully moreArguments) := by
  refine (finishes_closing [] (loose_cons rfl)).congr fun rest previous _ => ?_
  rw [fully_moreArguments]
  rfl

theorem finishes_arguments :
    Finishes Anything Anything [.filling (.mark .rightParen)]
      (fully arguments) :=
  (finishes_closing [] fun _ => trivial).congr fun _ _ _ => by
    rw [fully_arguments]
    rfl

theorem finishes_moreParameters :
    Finishes Anything Anything [.filling (.mark .rightParen)]
      (fully moreParameters) :=
  (finishes_closing [] fun _ => trivial).congr fun _ _ _ => by
    rw [fully_moreParameters]
    rfl

theorem finishes_parameters :
    Finishes Anything Anything [.filling (.mark .rightParen)]
      (fully parameters) :=
  (finishes_closing [] fun _ => trivial).congr fun _ _ _ => by
    rw [fully_parameters]
    rfl

theorem loose_of_ended {braced : Bool} {rest : List Token}
    (ended : Ended braced rest) :
    Loose rest := by
  rintro token first
  obtain ⟨tokens, rfl⟩ := List.head?_eq_some_iff.1 first
  by_cases last : token.kind = .endOfInput
  · rw [last]
    rfl
  · have closing : token.kind = .mark .rightBrace := by
      simp only [Ended, Cursor.peek?, Cursor.sees, if_neg last] at ended
      simp_all
    rw [closing]
    rfl

/-- The first of the tokens is no semicolon. -/
def Solid (tokens : List Token) : Prop :=
  ∀ token ∈ tokens.head?, token.kind ≠ .mark .semicolon

theorem skipSemicolons_of_solid {rest : List Token}
    {previous : Position}
    (solid : Solid rest) :
    (⟨rest, previous⟩ : Cursor).skipSemicolons = ⟨rest, previous⟩ := by
  cases rest with
  | nil => rfl
  | cons token tokens =>
      simp [Cursor.skipSemicolons, Cursor.skipSemicolonsFrom, solid token rfl]

theorem solid_of_ended {braced : Bool} {rest : List Token}
    (ended : Ended braced rest) :
    Solid rest := by
  intro token first semicolon
  obtain ⟨tokens, rfl⟩ := List.head?_eq_some_iff.1 first
  simp [Ended, Cursor.peek?, Cursor.sees, semicolon] at ended

theorem fully_sequence_of_ended {braced : Bool}
    {rest : List Token} {previous : Position}
    (ended : Ended braced rest) :
    fully (sequence · braced) ⟨rest, previous⟩ =
      .ok ([], ⟨rest, previous⟩) := by
  rw [fully_sequence]
  exact if_pos ended

theorem finishes_sequenceOn (braced : Bool) :
    Finishes Loose (Ended braced) [] (sequenceOn braced) := by
  refine (Finishes.give [] fun _ => loose_of_ended).congr
    fun rest previous ended => ?_
  rw [List.nil_append, sequenceOn,
    skipSemicolons_of_solid (solid_of_ended ended),
    fully_sequence_of_ended ended]
  rfl

theorem finishes_blockFrom (position : Position) :
    Finishes Loose Anything [.filling (.mark .rightBrace)]
      (blockFrom position) :=
  (finishes_sequenceOn true).andThen fun _ => finishes_closing _ fun _ => rfl

theorem finishes_block : Finishes Loose Anything noBlock (fully block) := by
  have braced : Finishes Loose Anything noBlock
      (behindMark .leftBrace (blockFrom .start)) :=
    (finishes_blockFrom .start).behindMark (loose_cons rfl)
  exact braced.congr fun rest previous _ => fully_block_eq _

/-- A clause behind its keyword. -/
def oneClause : List Token :=
  oneName ++ .filling (.mark .leftParen) ::
    (oneName ++ .filling (.mark .rightParen) :: noBlock)

theorem finishes_clauseFrom {α : Type} {position : Position}
    {next : Clause → Reader α}
    (finishes : ∀ clause, Finishes Anything Loose [] (next clause)) :
    Finishes Anything Loose oneClause (clauseFrom position next) := by
  refine finishes_identifier.andThen fun effect => ?_
  refine Finishes.behindMark (?_ : Finishes Anything _ _ _) fun _ => trivial
  refine finishes_identifier.andThen fun parameter => ?_
  refine Finishes.behindMark (?_ : Finishes Loose _ _ _) fun _ => trivial
  exact List.append_nil noBlock ▸ finishes_block.andThen fun body => finishes _

theorem finishes_clauses : Finishes Anything Loose [] (fully clauses) := by
  refine (Finishes.give [] fun _ _ => trivial).congr
    fun rest previous loose => ?_
  rw [List.nil_append, fully_clauses, if_neg (Cursor.peek?_of_loose loose rfl)]
  rfl

theorem finishes_clausesOn (first : Clause) :
    Finishes Anything Loose [] (clausesOn first) :=
  finishes_clauses.map

theorem finishes_handlersOn
    (body : Block) (position : Position) (first : Clause) :
    Finishes Anything Loose [] (handlersOn body position first) :=
  finishes_clauses.map

theorem finishes_handlers (body : Block) (position : Position) :
    Finishes Anything Loose (.filling (.keyword .handle) :: oneClause)
      (handlers body position) := by
  refine Finishes.step (clauseFrom .start (handlersOn body position)) (by simp)
    (fun there peeked start => ?_)
    (finishes_clauseFrom (finishes_handlersOn body position)) fun _ => trivial
  rw [handlers_handle peeked, start]

theorem finishes_alternative
    (condition : Expr) (consequence : Block) (position : Position) :
    Finishes Anything Loose []
      (alternative condition consequence position) := by
  refine (Finishes.give (.branch condition consequence none position)
    fun _ _ => trivial).congr fun rest previous loose => ?_
  rw [List.nil_append, alternative, if_neg (Cursor.peek?_of_loose loose rfl)]
  rfl

theorem finishes_alternativeFrom
    (condition : Expr) (consequence : Block) (position : Position) :
    Finishes Anything Anything noBlock
      (alternativeFrom condition consequence position) := by
  have body : Finishes Anything Anything noBlock
      (map (fun body => Expr.branch condition consequence (some (.block body))
        position) (fully block)) :=
    finishes_block.map.anywhere
  refine body.congr fun rest previous _ => ?_
  rw [alternativeFrom, if_neg (by simp [Cursor.peek?, noBlock, Token.filling])]

theorem finishes_branchFrom (position : Position) :
    Finishes Loose Loose (oneName ++ noBlock) (branchFrom position) := by
  have body : ∀ condition, Finishes Loose Loose noBlock
      (andThen (fully block) fun consequence =>
        alternative condition consequence position) :=
    fun condition => List.append_nil noBlock ▸
      finishes_block.andThen (finishes_alternative condition · position)
  exact finishes_expression.andThen body

theorem finishes_payloadFrom (effect : String) (position : Position) :
    Finishes Anything Anything [.filling (.mark .rightParen)]
      (payloadFrom effect position) := by
  refine Finishes.step (give (.perform effect none position)) (by simp)
    (fun there peeked _ => ?_) .done fun _ => trivial
  have accepted : there.accept? .rightParen = some there.advance := by
    simp [Cursor.accept?, Cursor.sees, peeked]
  rw [payloadFrom, accepted]
  rfl

theorem finishes_performFrom (position : Position) (effect : String) :
    Finishes Anything Loose [] (performFrom position effect) := by
  refine (Finishes.give (.perform effect none position)
    fun _ _ => trivial).congr fun rest previous loose => ?_
  rw [List.nil_append, performFrom, seesCall_of_loose loose]
  rfl

/-! ## What each parser function foresees -/

variable {idle : List Token → Prop} {cursor : Cursor}

/-- A reader that stops at the next token, since no form goes on with it. -/
theorem foresees_stop {α : Type} {reader : Reader α}
    {behind : List Token → Prop} {result : α}
    (same : ∀ there, cursor.Alike there → reader there = give result there)
    (quiet : ∀ rest, behind rest → reader ⟨rest, cursor.previous⟩ = give result
      ⟨rest, cursor.previous⟩)
    (fits : ∀ rest, behind rest → idle rest) :
    Foresees idle behind reader cursor (give result cursor) :=
  (Foresees.give fits).congr same fun rest allowed _ => quiet rest allowed

theorem foresees_closing {α : Type} {mark : Mark} {result : α} :
    Foresees idle Anything (behindMark mark (give result)) cursor
      (cursor.expect mark >>= fun after => .ok (result, after)) :=
  Foresees.behindMark .done .done

theorem foresees_identifier (cursor : Cursor) :
    Foresees idle Anything Cursor.identifier cursor cursor.identifier := by
  unfold Cursor.identifier
  split
  next name peeked =>
    refine Foresees.step (give name) peeked (fun there alike => ?_) .done .done
    rw [alike.peek?, peeked]
    rfl
  next unnamed =>
    refine Foresees.refuse fun there alike => ?_
    rw [alike.peek?]
    split
    next name peeked => exact absurd peeked (unnamed name)
    next => rfl

theorem accept?_of_peek? {mark : Mark}
    (peeked : cursor.peek? = some (.mark mark)) :
    cursor.accept? mark = some cursor.advance := by
  simp [Cursor.accept?, Cursor.sees, peeked]

/-- A reader that reads a mark or else something that moves. -/
theorem foresees_optional {α : Type} {mark : Mark}
    {front moreIdle behind : List Token → Prop} {more : List Token}
    {reader next other : Reader α}
    {later : Cursor → Except SourceError (α × Cursor)}
    {otherwise : Except SourceError (α × Cursor)}
    (reads : ∀ there, reader there = match there.accept? mark
      with | some after => next after | none => other there)
    (finishes : Finishes front behind more next)
    (accepted : Foresees moreIdle behind next cursor.advance
      (later cursor.advance))
    (refused : Foresees Nothing behind other cursor otherwise) :
    Foresees idle behind reader cursor
      (match cursor.accept? mark with
      | some after => later after
      | none => otherwise) := by
  match found : cursor.accept? mark with
  | some after =>
      obtain ⟨peeked, rfl⟩ := Cursor.peek?_of_accept? found
      refine Foresees.step next peeked (fun there alike => ?_) finishes accepted
      rw [reads, accept?_of_peek? (alike.peek?.trans peeked)]
  | none =>
      refine Foresees.congr_moved _ (fun there alike => ?_) refused
      rw [reads, alike.accept?, found]
      rfl

theorem foresees_moreParameters (bound : Nat) (cursor : Cursor) :
    Foresees Nothing Anything (fully moreParameters) cursor
      (moreParameters bound cursor) := by
  induction bound generalizing cursor with
  | zero => exact .tooDeep
  | succ bound inner =>
      simp only [moreParameters, plain, pure_bind]
      exact foresees_optional fully_moreParameters
        (finishes_identifier.andThen fun _ => finishes_moreParameters.map)
        ((foresees_identifier _ : Foresees Anything _ _ _ _).andThen
          (fun _ => finishes_moreParameters.map)
          fun _ after => (inner after).moved.map fun _ _ => rfl)
        foresees_closing

theorem foresees_parameters (bound : Nat) (cursor : Cursor) :
    Foresees Nothing Anything (fully parameters) cursor
      (parameters bound cursor) := by
  simp only [parameters, plain, pure_bind]
  exact foresees_optional fully_parameters .done .done
    ((foresees_identifier _).andThen (fun _ => finishes_moreParameters.map)
      fun _ after => (foresees_moreParameters bound after).moved.map
        fun _ _ => rfl)

/-- Skipping takes away the semicolons at the front, whatever else follows
them. -/
theorem exists_semicolons (cursor : Cursor) : ∃ semicolons,
    cursor.rest = semicolons ++ cursor.skipSemicolons.rest ∧ Inside semicolons ∧
      Solid cursor.skipSemicolons.rest ∧ ∀ rest, Solid rest →
        (⟨semicolons ++ rest, cursor.previous⟩ : Cursor).skipSemicolons =
          ⟨rest, cursor.skipSemicolons.previous⟩ := by
  obtain ⟨tokens, previous⟩ := cursor
  induction tokens generalizing previous with
  | nil => exact ⟨[], rfl, .nil, by
    simp [Solid, Cursor.skipSemicolons, Cursor.skipSemicolonsFrom],
      fun rest solid => skipSemicolons_of_solid solid⟩
  | cons token tokens inner =>
      by_cases semicolon : token.kind = .mark .semicolon
      · have skipped : ∀ rest,
            (⟨token :: rest, previous⟩ : Cursor).skipSemicolons =
            (⟨rest, token.position⟩ : Cursor).skipSemicolons := by
          intro rest
          simp [Cursor.skipSemicolons, Cursor.skipSemicolonsFrom, semicolon]
        obtain ⟨semicolons, rest_eq, inside, solid, skips⟩ :=
          inner token.position
        refine ⟨token :: semicolons, ?_, .cons (by simp [semicolon]) inside, ?_,
          fun rest fits => ?_⟩
        · rw [skipped]
          exact congrArg (token :: ·) rest_eq
        · rw [skipped]
          exact solid
        · rw [skipped, List.cons_append, skipped]
          exact skips rest fits
      · have solid : Solid (token :: tokens) := by
          rintro _ ⟨⟩
          exact semicolon
        rw [skipSemicolons_of_solid solid]
        exact ⟨[], rfl, .nil, solid, fun rest fits =>
          skipSemicolons_of_solid fits⟩

/-- What is known of a sequence is known of it behind semicolons. -/
theorem foresees_sequenceOn {braced : Bool}
    {parsed : Except SourceError (List Expr × Cursor)}
    (foresees : Foresees (Ended braced) (Ended braced)
      (fully (sequence · braced)) cursor.skipSemicolons parsed) :
    Foresees Loose (Ended braced) (sequenceOn braced) cursor parsed := by
  obtain ⟨semicolons, rest_eq, inside, solid, skips⟩ := exists_semicolons cursor
  have reads : ∀ rest, Solid rest →
      sequenceOn braced ⟨semicolons ++ rest, cursor.previous⟩ =
      fully (sequence · braced) ⟨rest, cursor.skipSemicolons.previous⟩ := by
    intro rest fits
    rw [sequenceOn, skips rest fits]
  have solid_append : ∀ {used stop rest : List Token},
      cursor.skipSemicolons.rest = used ++ stop →
      (used = [] → rest.head? = stop.head? ∨ Ended braced rest) →
      Solid (used ++ rest) := by
    intro used stop rest skipped follows token first
    by_cases empty : used = []
    · subst empty
      rcases follows rfl with alike | ended
      · exact solid token (by rw [skipped]; exact alike ▸ first)
      · exact solid_of_ended ended token first
    · refine solid token ?_
      rw [skipped, List.head?_append_of_ne_nil _ empty]
      rwa [List.head?_append_of_ne_nil _ empty] at first
  cases parsed with
  | ok read =>
      obtain ⟨used, passes⟩ := foresees
      refine ⟨semicolons ++ used,
        { rest_eq := by rw [rest_eq, passes.rest_eq, List.append_assoc]
          inside := inside.append passes.inside
          idle_of_nil := fun _ rest => loose_of_ended
          again := fun rest follows => ?_ }⟩
      rw [List.append_assoc,
        reads _ (solid_append passes.rest_eq fun _ => follows)]
      exact passes.again rest follows
  | error error =>
      refine foresees.imp_right fun ⟨stop, used, refuses⟩ =>
        ⟨stop, semicolons ++ used,
        { rest_eq := by rw [rest_eq, refuses.rest_eq, List.append_assoc]
          inside := inside.append refuses.inside
          refused := refuses.refused
          completes := fun _ => ?_
          again := fun rest seen alike => ?_ }⟩
      · by_cases empty : used = []
        · subst empty
          refine ⟨[], .nil, fun rest ended =>
            ⟨[], cursor.skipSemicolons.previous, ?_⟩⟩
          rw [List.append_nil, List.nil_append,
            reads rest (solid_of_ended ended), fully_sequence_of_ended ended]
        · obtain ⟨more, inside, leaves⟩ := refuses.completes empty
          refine ⟨more, inside, fun rest ended => ?_⟩
          rw [List.append_assoc,
            reads _ (solid_append refuses.rest_eq fun none =>
              absurd none empty)]
          exact leaves rest ended
      · rw [List.append_assoc,
          reads _ (solid_append refuses.rest_eq fun _ => .inl alike)]
        exact refuses.again rest seen alike

/-- Reading a clause behind its keyword and going on. -/
theorem foresees_clauseFrom {α : Type} {bound : Nat}
    {position : Position} {next later : Clause → Reader α}
    (body : ∀ cursor, Foresees Nothing Anything (fully block) cursor
      (block bound cursor))
    (finishes : ∀ clause, Finishes Anything Loose [] (next clause))
    (late : ∀ clause after, Foresees Anything Loose (next clause) after
      (later clause after)) :
    Foresees Nothing Loose (clauseFrom position next) cursor
      (clauseWithin bound position later cursor) := by
  have finished : ∀ effect parameter, Finishes Loose Loose noBlock
      (andThen (fully block) fun body =>
        next ⟨effect, parameter, body, position⟩) :=
    fun effect parameter => List.append_nil noBlock ▸ finishes_block.andThen
      fun body => finishes _
  have named : ∀ effect, Finishes Anything Loose
      (oneName ++ .filling (.mark .rightParen) :: noBlock)
      (andThen Cursor.identifier fun parameter => behindMark .rightParen <|
        andThen (fully block) fun body =>
          next ⟨effect, parameter, body, position⟩) :=
    fun effect => finishes_identifier.andThen fun parameter =>
      (finished effect parameter).behindMark fun _ => trivial
  refine (foresees_identifier cursor).andThen
    (fun effect => (named effect).behindMark fun _ => trivial)
      fun effect afterEffect => ?_
  refine Foresees.behindMark (named effect) (?_ : Foresees Anything _ _ _ _)
  refine (foresees_identifier _).andThen
    (fun parameter => (finished effect parameter).behindMark fun _ => trivial)
    fun parameter afterParameter => ?_
  refine Foresees.behindMark (finished effect parameter)
    (?_ : Foresees Anything _ _ _ _)
  exact (body _).moved.andThen (fun body => finishes _) fun body afterBody =>
    late _ afterBody

/-- Reading the payload of an effect behind its opening parenthesis, or none. -/
theorem foresees_payloadFrom {bound : Nat}
    (payloads : ∀ cursor, Foresees Nothing Loose (fully expression) cursor
      (expression bound cursor))
    (effect : String) (position : Position) (cursor : Cursor) :
    Foresees Nothing Anything (payloadFrom effect position) cursor
      (match cursor.accept? .rightParen with
      | some afterParen => .ok (.perform effect none position, afterParen)
      | none => do
          let (payload, afterPayload) ← expression bound cursor
          let afterParen ← afterPayload.expect .rightParen
          return (.perform effect (some payload) position, afterParen)) :=
  foresees_optional (fun _ => rfl) .done .done
    ((payloads cursor).andThen (fun _ => finishes_closing _ (loose_cons rfl))
      fun _ _ => foresees_closing)

/-- Reading what follows the name of an effect. -/
theorem foresees_performFrom {bound : Nat}
    (payloads : ∀ cursor, Foresees Nothing Loose (fully expression) cursor
      (expression bound cursor))
    (position : Position) (effect : String) (cursor : Cursor) :
    Foresees Anything Loose (performFrom position effect) cursor
      (if cursor.seesCall then
        match cursor.advance.accept? .rightParen with
        | some afterParen => .ok (.perform effect none position, afterParen)
        | none => do
            let (payload, afterPayload) ← expression bound cursor.advance
            let afterParen ← afterPayload.expect .rightParen
            return (.perform effect (some payload) position, afterParen)
      else .ok (.perform effect none position, cursor)) := by
  split
  next seen =>
    refine Foresees.step (payloadFrom effect position) (peek?_of_seesCall seen)
      (fun there alike => ?_) (finishes_payloadFrom effect position).narrow
      (foresees_payloadFrom payloads effect position cursor.advance).narrow
    rw [performFrom, alike.seesCall, if_pos seen]
  next unseen =>
    refine foresees_stop (fun there alike => ?_) (fun rest loose => ?_)
      fun _ _ => trivial
    · rw [performFrom, alike.seesCall, if_neg unseen]
      rfl
    · rw [performFrom, seesCall_of_loose loose]
      rfl

/-- Reading what follows the first body of a choice. -/
theorem foresees_alternative {bound : Nat}
    (branches : ∀ {cursor : Cursor}, cursor.peek? = some (.keyword .branch) →
      Foresees Nothing Loose (fully branch) cursor (branch bound cursor))
    (bodies : ∀ cursor, Foresees Nothing Anything (fully block) cursor
      (block bound cursor))
    (condition : Expr) (consequence : Block) (position : Position)
    (cursor : Cursor) :
    Foresees Anything Loose (alternative condition consequence position) cursor
      (if cursor.peek? = some (.keyword .otherwise) then
        if cursor.advance.peek? = some (.keyword .branch) then do
          let (other, after) ← branch bound cursor.advance
          return (.branch condition consequence (some other) position, after)
        else do
          let (body, after) ← block bound cursor.advance
          return (.branch condition consequence (some (.block body))
            position, after)
      else .ok (.branch condition consequence none position, cursor)) := by
  split
  next otherwise =>
    refine Foresees.step
      (alternativeFrom condition consequence position) otherwise
      (fun there alike => ?_)
      (finishes_alternativeFrom condition consequence position).narrow
      (?_ : Foresees Nothing _ _ _ _)
    · rw [alternative, alike.peek?, if_pos otherwise]
    split
    next again =>
      refine Foresees.congr_moved _ (fun there alike => ?_)
        ((branches again).map fun _ _ => rfl)
      rw [alternativeFrom, alike.peek?, if_pos again]
    next other =>
      refine Foresees.congr_moved _ (fun there alike => ?_)
        ((bodies cursor.advance).narrow.map fun _ _ => rfl)
      rw [alternativeFrom, alike.peek?, if_neg other]
  next alone =>
    refine foresees_stop (fun there alike => ?_) (fun rest loose => ?_)
      fun _ _ => trivial
    · rw [alternative, alike.peek?, if_neg alone]
      rfl
    · rw [alternative, if_neg (Cursor.peek?_of_loose loose rfl)]
      rfl

mutual

theorem foresees_expression (bound : Nat) (cursor : Cursor) :
    Foresees Nothing Loose (fully expression) cursor
      (expression bound cursor) := by
  match bound with
  | 0 => exact .tooDeep
  | bound + 1 =>
      simp only [expression, plain, pure_bind, fully_expression_eq]
      refine (foresees_binary bound .equality cursor).andThen
        finishes_assignment fun target after => ?_
      dsimp only
      split
      next afterMark accepted =>
        obtain ⟨peeked, rfl⟩ := Cursor.peek?_of_accept? accepted
        refine Foresees.step
          (map (Expr.assign target · target.position) (fully expression)) peeked
          (fun there alike => ?_) finishes_expression.map
          ((foresees_expression bound after.advance).map fun _ _ => rfl)
        rw [assignment, accept?_of_peek? (alike.peek?.trans peeked)]
      next unread =>
        refine foresees_stop (fun there alike => ?_) (fun rest loose => ?_)
          fun _ => id
        · rw [assignment, alike.accept?, unread]
          rfl
        · rw [assignment, accept?_of_loose loose rfl]
          rfl

theorem foresees_binary (bound : Nat) (level : Precedence) (cursor : Cursor) :
    Foresees Nothing Loose (fully (binary · level)) cursor
      (binary bound level cursor) := by
  match bound with
  | 0 => exact .tooDeep
  | bound + 1 =>
      simp only [binary, fully_binary_eq]
      exact (foresees_operand bound level cursor).andThen
        (finishes_moreOperands level)
        fun left after => foresees_moreOperands bound level left after

theorem foresees_moreOperands
    (bound : Nat) (level : Precedence) (left : Expr) (cursor : Cursor) :
    Foresees Loose Loose (fully (moreOperands · level left)) cursor
      (moreOperands bound level left cursor) := by
  match bound with
  | 0 => exact .tooDeep
  | bound + 1 =>
      simp only [moreOperands, plain, pure_bind]
      split
      next op after found =>
        obtain ⟨peeked, rfl⟩ := Cursor.peek?_of_operator? found
        refine Foresees.step
          (andThen (fully (operand · level)) fun right =>
            fully (moreOperands · level (.binary op left right left.position)))
          peeked (fun there alike => ?_)
          ((finishes_operand level).andThen fun right =>
            finishes_moreOperands level _)
          ((foresees_operand bound level cursor.advance).andThen
            (fun right => finishes_moreOperands level _)
            fun right after => foresees_moreOperands bound level _ after)
        rw [fully_moreOperands, alike.operator?, found]
        rfl
      next unread =>
        refine foresees_stop (fun there alike => ?_) (fun rest loose => ?_)
          fun _ => id
        · rw [fully_moreOperands, alike.operator?, unread]
          rfl
        · rw [fully_moreOperands, operator?_of_loose loose]
          rfl

theorem foresees_operand (bound : Nat) (level : Precedence) (cursor : Cursor) :
    Foresees Nothing Loose (fully (operand · level)) cursor
      (operand bound level cursor) := by
  match bound with
  | 0 => exact .tooDeep
  | bound + 1 =>
      simp only [operand]
      split
      next tighter next =>
        refine Foresees.congr_moved _ (fun there _ => ?_)
          (foresees_binary bound tighter cursor)
        rw [fully_operand, next]
      next last =>
        refine Foresees.congr_moved _ (fun there _ => ?_)
          (foresees_unary bound cursor)
        rw [fully_operand, last]

theorem foresees_unary (bound : Nat) (cursor : Cursor) :
    Foresees Nothing Loose (fully unary) cursor (unary bound cursor) := by
  match bound with
  | 0 => exact .tooDeep
  | bound + 1 =>
      have called : (∀ op : UnaryOp, cursor.peek? ≠ some (.mark op.mark)) →
          Foresees Nothing Loose (fully unary) cursor (call bound cursor) := by
        intro unmarked
        refine Foresees.congr_moved _ (fun there alike => ?_)
          (foresees_call bound cursor)
        exact fully_unary_call fun op => alike.peek? ▸ unmarked op
      simp only [unary, plain, pure_bind]
      split
      next mark peeked =>
        split
        next op read =>
          rw [← UnaryOp.ofMark?_eq_some_iff.1 read] at peeked
          refine Foresees.step
            (map (Expr.unary op · cursor.position) (fully unary)) peeked
            (fun there alike => ?_) finishes_unary.map
              ((foresees_unary bound cursor.advance).map fun _ _ => rfl)
          rw [fully_unary_mark (alike.peek?.trans peeked), alike.position]
          rfl
        next unread =>
          refine called fun op seen => ?_
          rw [peeked] at seen
          cases seen
          rw [UnaryOp.ofMark?_eq_some_iff.2 rfl] at unread
          cases unread
      next unmarked => exact called fun op => unmarked op.mark

theorem foresees_call (bound : Nat) (cursor : Cursor) :
    Foresees Nothing Loose (fully call) cursor (call bound cursor) := by
  match bound with
  | 0 => exact .tooDeep
  | bound + 1 =>
      simp only [call, fully_call_eq]
      exact (foresees_primary bound cursor).andThen finishes_moreCalls
        fun callee after => foresees_moreCalls bound callee after

theorem foresees_moreCalls (bound : Nat) (callee : Expr) (cursor : Cursor) :
    Foresees Loose Loose (fully (moreCalls · callee)) cursor
      (moreCalls bound callee cursor) := by
  match bound with
  | 0 => exact .tooDeep
  | bound + 1 =>
      simp only [moreCalls, plain, pure_bind]
      split
      next seen =>
        refine Foresees.step
          (andThen (fully arguments) fun arguments =>
            fully (moreCalls · (.call callee arguments callee.position)))
          (peek?_of_seesCall seen) (fun there alike => ?_)
          (finishes_arguments.andThen fun _ => (finishes_moreCalls _).anywhere)
          ((foresees_arguments bound cursor.advance).andThen
            (fun _ => (finishes_moreCalls _).anywhere)
            fun arguments after => (foresees_moreCalls bound _ after).mono_idle
              fun _ _ => trivial)
        rw [fully_moreCalls, alike.seesCall, if_pos seen]
        rfl
      next unseen =>
        refine foresees_stop (fun there alike => ?_) (fun rest loose => ?_)
          fun _ => id
        · rw [fully_moreCalls, alike.seesCall, if_neg unseen]
          rfl
        · rw [fully_moreCalls, seesCall_of_loose loose]
          rfl

theorem foresees_arguments (bound : Nat) (cursor : Cursor) :
    Foresees Nothing Anything (fully arguments) cursor
      (arguments bound cursor) := by
  match bound with
  | 0 => exact .tooDeep
  | bound + 1 =>
      simp only [arguments, plain, pure_bind]
      exact foresees_optional fully_arguments .done .done
        ((foresees_expression bound cursor).andThen
          (fun _ => finishes_moreArguments.map)
          fun first after => (foresees_moreArguments bound after).moved.map
            fun _ _ => rfl)

theorem foresees_moreArguments (bound : Nat) (cursor : Cursor) :
    Foresees Nothing Anything (fully moreArguments) cursor
      (moreArguments bound cursor) := by
  match bound with
  | 0 => exact .tooDeep
  | bound + 1 =>
      simp only [moreArguments, plain, pure_bind]
      exact foresees_optional fully_moreArguments
        (finishes_expression.andThen fun _ => finishes_moreArguments.map)
        ((foresees_expression bound cursor.advance).andThen
          (fun _ => finishes_moreArguments.map)
          fun first after => (foresees_moreArguments bound after).moved.map
            fun _ _ => rfl)
        foresees_closing

theorem foresees_primary (bound : Nat) (cursor : Cursor) :
    Foresees Nothing Loose (fully primary) cursor (primary bound cursor) := by
  match bound with
  | 0 => exact .tooDeep
  | bound + 1 =>
      simp only [primary, plain, pure_bind]
      split
      next name peeked =>
        refine Foresees.step (give (.ident name cursor.position)) peeked
          (fun there alike => ?_) .done .done
        rw [fully_primary_ident (alike.peek?.trans peeked), alike.position]
        rfl
      next peeked =>
        refine Foresees.step
          (andThen (fully expression) fun inner => behindMark .rightParen
            (give inner))
          peeked (fun there alike => ?_)
          (finishes_expression.andThen fun inner =>
            (finishes_closing _ (loose_cons rfl)).narrow)
          ((foresees_expression bound cursor.advance).andThen
            (fun inner => (finishes_closing _ (loose_cons rfl)).narrow)
            fun inner after => foresees_closing.narrow)
        exact fully_primary_group (alike.peek?.trans peeked)
      next peeked =>
        refine Foresees.congr_moved (map Expr.block (fully block))
          (fun there alike => ?_)
          ((foresees_block bound cursor).narrow.map fun _ _ => rfl)
        exact fully_primary_block (alike.peek?.trans peeked)
      next peeked =>
        refine Foresees.congr_moved _ (fun there alike => ?_)
          (foresees_branch bound peeked)
        exact fully_primary_branch (alike.peek?.trans peeked)
      next peeked =>
        refine Foresees.step
          (andThen (fully expression) fun condition =>
            map (Expr.loop condition · cursor.position) (fully block))
          peeked (fun there alike => ?_)
          (finishes_expression.andThen fun _ => finishes_block.narrow.map)
          ((foresees_expression bound cursor.advance).andThen
            (fun _ => finishes_block.narrow.map)
            fun _ after => (foresees_block bound after).narrow.moved.map
              fun _ _ => rfl)
        rw [fully_primary_loop (alike.peek?.trans peeked), alike.position]
        rfl
      next peeked =>
        have named : ∀ name, Finishes Anything Loose
            (.filling (.mark .leftParen) :: .filling
              (.mark .rightParen) :: noBlock)
            (behindMark .leftParen <| andThen (fully parameters) fun names =>
              map (Expr.define name names · cursor.position) (fully block)) :=
                fun name =>
          (finishes_parameters.andThen fun names =>
            finishes_block.narrow.map.anywhere).behindMark
            fun _ => trivial
        refine Foresees.step
          (andThen Cursor.identifier fun name => behindMark .leftParen <|
            andThen (fully parameters) fun names =>
              map (Expr.define name names · cursor.position) (fully block))
          peeked (fun there alike => ?_) (finishes_identifier.andThen named)
          ((foresees_identifier cursor.advance :
              Foresees Anything _ _ _ _).andThen named fun name afterName =>
            Foresees.behindMark
              (finishes_parameters.andThen fun names =>
                finishes_block.narrow.map.anywhere)
              ((foresees_parameters bound _).andThen
                (fun names => finishes_block.narrow.map.anywhere)
                fun names after => (foresees_block bound after).narrow.moved.map
                  fun _ _ => rfl))
        rw [fully_primary_define (alike.peek?.trans peeked), alike.position]
        rfl
      next peeked =>
        refine Foresees.step
          (andThen (fully block) fun body => handlers body cursor.position)
          peeked
          (fun there alike => ?_)
          (finishes_block.andThen (finishes_handlers · cursor.position))
          ((foresees_block bound cursor.advance).andThen
            (finishes_handlers · cursor.position)
            fun body after => foresees_handlers bound body
              cursor.position after)
        rw [fully_primary_attempt (alike.peek?.trans peeked), alike.position]
        rfl
      next peeked =>
        refine Foresees.step
          (andThen Cursor.identifier (performFrom cursor.position)) peeked
          (fun there alike => ?_)
          (finishes_identifier.andThen (finishes_performFrom cursor.position))
          ((foresees_identifier cursor.advance :
            Foresees Anything _ _ _ _).andThen
            (finishes_performFrom cursor.position)
            fun effect after => foresees_performFrom (foresees_expression bound)
              cursor.position effect after)
        rw [fully_primary_perform (alike.peek?.trans peeked), alike.position]
        rfl
      next peeked =>
        split
        next value read =>
          rw [← Literal.ofToken?_eq_some_iff.1 read] at peeked
          refine Foresees.step (give (.literal value cursor.position)) peeked
            (fun there alike => ?_) .done .done
          rw [fully_primary_literal (alike.peek?.trans peeked), alike.position]
          rfl
        next unread =>
          refine Foresees.refuse fun there alike => ?_
          rw [fully_eq primary, primary, alike.peek?, peeked]
          simp only [unread, plain]
      next ended =>
        refine Foresees.refuse fun there alike => ?_
        rw [fully_eq primary, primary, alike.peek?, ended]
        rfl

theorem foresees_handlers
    (bound : Nat) (body : Block) (position : Position) (cursor : Cursor) :
    Foresees Anything Loose (handlers body position) cursor
      (clauses bound cursor >>= fun (clauses, after) =>
        if clauses.isEmpty then .error (after.refuse .handleClause)
        else .ok (.attempt body clauses position, after)) := by
  match bound with
  | 0 => exact .inl ⟨_, rfl⟩
  | bound + 1 =>
      by_cases peeked : cursor.peek? = some (.keyword .handle)
      · rw [clauses_handle peeked, clauseWithin_bind]
        refine Foresees.step
          (clauseFrom cursor.position (handlersOn body position)) peeked
          (fun there alike => ?_)
          (finishes_clauseFrom (finishes_handlersOn body position))
          (foresees_clauseFrom (foresees_block bound)
            (finishes_handlersOn body position)
            fun clause after => ?_)
        · rw [handlers_handle (alike.peek?.trans peeked), alike.position]
        · rw [bind_assoc]
          exact (foresees_clauses bound after).map fun _ _ => rfl
      · rw [clauses, if_neg peeked]
        exact Foresees.refuse fun there alike =>
          handlers_none (alike.peek? ▸ peeked)

theorem foresees_branch
    (bound : Nat)
    {cursor : Cursor}
    (peeked : cursor.peek? = some (.keyword .branch)) :
    Foresees Nothing Loose (fully branch) cursor (branch bound cursor) := by
  match bound with
  | 0 => exact .tooDeep
  | bound + 1 =>
      simp only [branch, plain, pure_bind]
      have finishes_body : ∀ condition, Finishes Loose Loose noBlock
          (andThen (fully block) fun consequence =>
            alternative condition consequence cursor.position) :=
              fun condition =>
        List.append_nil noBlock ▸ finishes_block.andThen
          (finishes_alternative condition · _)
      refine Foresees.step (branchFrom cursor.position) peeked
        (fun there alike => ?_) (finishes_branchFrom cursor.position)
        ((foresees_expression bound cursor.advance).andThen finishes_body
          fun condition afterCondition =>
            (foresees_block bound afterCondition).moved.andThen
              (finishes_alternative condition · _) fun consequence after =>
                foresees_alternative (foresees_branch bound)
                  (foresees_block bound) condition consequence
                  cursor.position after)
      rw [fully_branch_eq (alike.peek?.trans peeked), alike.position]

theorem foresees_clauses (bound : Nat) (cursor : Cursor) :
    Foresees Anything Loose (fully clauses) cursor (clauses bound cursor) := by
  match bound with
  | 0 => exact .tooDeep
  | bound + 1 =>
      by_cases peeked : cursor.peek? = some (.keyword .handle)
      · rw [clauses_handle peeked]
        refine Foresees.step (clauseFrom cursor.position clausesOn) peeked
          (fun there alike => ?_) (finishes_clauseFrom finishes_clausesOn)
          (foresees_clauseFrom (foresees_block bound) finishes_clausesOn
            fun clause after => (foresees_clauses bound after).map
              fun _ _ => rfl)
        rw [fully_clauses_handle (alike.peek?.trans peeked), alike.position]
      · rw [clauses, if_neg peeked]
        refine foresees_stop (fun there alike => ?_) (fun rest loose => ?_)
          fun _ _ => trivial
        · rw [fully_clauses, alike.peek?, if_neg peeked]
          rfl
        · rw [fully_clauses, if_neg (Cursor.peek?_of_loose loose rfl)]
          rfl

theorem foresees_block (bound : Nat) (cursor : Cursor) :
    Foresees Nothing Anything (fully block) cursor (block bound cursor) := by
  match bound with
  | 0 => exact .tooDeep
  | bound + 1 =>
      simp only [block, plain, pure_bind]
      have inner : Foresees Loose Anything (blockFrom cursor.position)
          cursor.advance
          (sequence bound true cursor.advance.skipSemicolons >>=
              fun (expressions, after) =>
            after.expect .rightBrace >>= fun closed =>
              .ok (⟨expressions, cursor.position⟩, closed)) :=
        (foresees_sequenceOn (foresees_sequence bound true _)).andThen
          (fun _ => finishes_closing _ fun _ => rfl) fun _ _ => foresees_closing
      refine Foresees.congr_moved
        (behindMark .leftBrace (blockFrom cursor.position))
        (fun there alike => ?_)
          (Foresees.behindMark (finishes_blockFrom cursor.position) inner)
      rw [fully_block_eq, alike.position]

theorem foresees_sequence (bound : Nat) (braced : Bool) (cursor : Cursor) :
    Foresees (Ended braced) (Ended braced) (fully (sequence · braced)) cursor
      (sequence bound braced cursor) := by
  match bound with
  | 0 => exact .tooDeep
  | bound + 1 =>
      simp only [sequence, plain, pure_bind]
      split
      next ended =>
        refine foresees_stop (fun there alike => ?_) (fun rest ends => ?_)
          fun _ => id
        · rw [fully_sequence, alike.peek?, alike.sees]
          exact if_pos ended
        · exact fully_sequence_of_ended ends
      next goesOn =>
        have others : ∀ first after, Foresees Loose (Ended braced)
            (map (first :: ·) (sequenceOn braced)) after
            (sequence bound braced after.skipSemicolons >>=
                fun (others, last) =>
              .ok (first :: others, last)) := fun first after =>
          (foresees_sequenceOn (foresees_sequence bound braced _)).map
            fun _ _ => rfl
        refine Foresees.congr_moved
          (andThen (fully expression) fun first =>
            map (first :: ·) (sequenceOn braced))
          (fun there alike => ?_)
          ((foresees_expression bound cursor).andThen
            (fun _ => (finishes_sequenceOn braced).map)
            others)
        rw [fully_sequence, alike.peek?, alike.sees]
        exact if_neg goesOn

end

end EffectScript.Parser

namespace EffectScript

open EffectScript.Parser

/-! ## Programs -/

/-- A program is what its expressions are read to, whatever the bound. -/
theorem Block.parse_eq (tokens : List Token) :
    Block.parse tokens = (fully (sequence · false) ⟨tokens, .start⟩).map
        fun read =>
      ⟨read.1, (⟨tokens, .start⟩ : Cursor).position⟩ := by
  unfold Block.parse fully
  cases Parser.sequence (Parser.depthFor tokens.length) false
    ⟨tokens, .start⟩ <;> rfl

theorem Block.parse_of_ok {tokens : List Token}
    {expressions : List Expr} {after : Cursor}
    (read : fully (sequence · false) ⟨tokens, .start⟩ = .ok
      (expressions, after)) :
    Block.parse tokens =
      .ok ⟨expressions, (⟨tokens, .start⟩ : Cursor).position⟩ := by
  rw [Block.parse_eq, read]
  rfl

theorem Block.parse_eq_error_iff {tokens : List Token} {error : SourceError} :
    Block.parse tokens = .error error ↔
    fully (sequence · false) ⟨tokens, .start⟩ = .error error := by
  rw [Block.parse_eq]
  cases fully (sequence · false) ⟨tokens, .start⟩ <;> simp [Except.map]

/-- The error speaks of the token: of its place and of what it is. -/
def SourceError.Reports (error : SourceError) (token : Token) : Prop :=
  error.position = token.position ∧
    ∃ wanted, error.problem =
      .expected wanted
        (if token.kind = .endOfInput then none else some token.kind)

/-- Further tokens up to the given end make a program of the tokens. -/
def CanBegin (ending : Token) (tokens : List Token) : Prop :=
  ∃ more program, Inside more ∧
    Block.parse (tokens ++ more ++ [ending]) = .ok program

/-- The error speaks of the first token that is impossible where it stands. What
stands before it can still become a program; and unless it is the end of the
input, no program begins with what stands before it and with the token
itself. -/
structure SourceError.IsFirstImpossible
    (error : SourceError) (ending : Token) (before : List Token)
    (token : Token) : Prop where
  reports : error.Reports token
  possible : CanBegin ending before
  impossible : token.kind ≠ .endOfInput →
    ∀ rest program, Block.parse (before ++ token :: rest) ≠ .ok program

/-- An error of the parser stands at the end of the longest part of the tokens
with which a program can begin. -/
theorem parse_refuses_first_impossible {tokens : List Token}
    {ending : Token} {error : SourceError}
    (ends : ending.kind = .endOfInput)
    (refused : Block.parse (tokens ++ [ending]) = .error error) :
    ∃ before token after, tokens ++ [ending] = before ++ token :: after ∧
      error.IsFirstImpossible ending before token := by
  have atEnd : Ended false [ending] := by simp [Ended, Cursor.peek?, ends]
  rw [Block.parse_eq_error_iff] at refused
  have foresees := foresees_sequence
    (depthFor (tokens ++ [ending]).length) false ⟨tokens ++ [ending], .start⟩
  have settles := @settles_sequence (depthFor (tokens ++ [ending]).length) false
    ⟨tokens ++ [ending], .start⟩ (by simp [depthFor]; omega)
  rw [show sequence _ false ⟨tokens ++ [ending], .start⟩ = _ from refused]
    at foresees settles
  rcases foresees with tooDeep | ⟨stop, before, refuses⟩
  · exact absurd tooDeep (settles error rfl)
  have some : stop.rest ≠ [] := by
    intro empty
    have all : tokens ++ [ending] = before := by
      simpa [empty] using refuses.rest_eq
    exact refuses.inside ending
      (all ▸ List.mem_append_right tokens List.mem_cons_self) ends
  obtain ⟨token, after, rest_eq⟩ := List.exists_cons_of_ne_nil some
  refine ⟨before, token, after, rest_eq ▸ refuses.rest_eq,
    { reports := ?_, possible := ?_, impossible :=
      fun inside rest program parsed => ?_ }⟩
  · obtain ⟨wanted, rfl⟩ := refuses.refused
    exact ⟨by simp [Cursor.refuse, Cursor.position, rest_eq],
      wanted, by simp [Cursor.refuse, Cursor.peek?, rest_eq]⟩
  · by_cases empty : before = []
    · subst empty
      exact ⟨[], _, .nil, Block.parse_of_ok (fully_sequence_of_ended atEnd)⟩
    · obtain ⟨more, insideMore, leaves⟩ := refuses.completes empty
      obtain ⟨expressions, previous, read⟩ := leaves [ending] atEnd
      rw [← List.append_assoc] at read
      exact ⟨more, _, insideMore, Block.parse_of_ok read⟩
  · have again := refuses.again (token :: rest)
      (by simp [Cursor.peek?, rest_eq, inside]) (by rw [rest_eq]; rfl)
    rw [Block.parse_eq_error_iff.2 again] at parsed
    cases parsed

/-- In `fn f( { }` the first impossible token is the brace that stands where a
name should. -/
theorem parse_refuses_brace_among_parameters :
    let tokens : List Token :=
      [⟨.keyword .define, ⟨1, 1⟩⟩, ⟨.ident "f", ⟨1, 4⟩⟩,
      ⟨.mark .leftParen, ⟨1, 5⟩⟩, ⟨.mark .leftBrace, ⟨1, 7⟩⟩,
      ⟨.mark .rightBrace, ⟨1, 9⟩⟩]
    let ending : Token := ⟨.endOfInput, ⟨1, 10⟩⟩
    let error : SourceError :=
      ⟨.expected .identifier (some (.mark .leftBrace)), ⟨1, 7⟩⟩
    ending.kind = .endOfInput ∧
    Block.parse (tokens ++ [ending]) = .error error ∧
      ∃ before token after, tokens ++ [ending] = before ++ token :: after ∧
        error.IsFirstImpossible ending before token := by
  intro tokens ending error
  have refused : Block.parse (tokens ++ [ending]) = .error error := rfl
  exact ⟨rfl, refused, parse_refuses_first_impossible rfl refused⟩

end EffectScript
