import EffectScript.Proofs.ProgramRefusal

/-!
# The parser always makes progress

A parser function that fails has moved its cursor too, and what it has read is
not in its result. So that all movement can be spoken of, this module runs the
functions of the parser as computations that keep a log: whatever moves a cursor
does so by advancing it over one token, and is noted down with the cursor.

The logs are trails: every cursor in them stands before a token that is not the
end of the input, and the next one stands behind that token. From this follows
all that there is to say of the movement. No cursor is advanced at the end of
the input, none gets behind its first end, and none goes back.
-/

namespace EffectScript.Parser

open ReadsTokens

variable {α β : Type}

/-! ## Logs -/

/-- A computation with the cursors that it advances, in order. -/
structure Log (α : Type) where
  advanced : List Cursor
  outcome : Except SourceError α

namespace Log

instance : Monad Log where
  pure value := ⟨[], .ok value⟩
  bind first rest :=
    match first.outcome with
    | .ok value =>
        ⟨first.advanced ++ (rest value).advanced, (rest value).outcome⟩
    | .error error => ⟨first.advanced, .error error⟩

/-- A cursor is noted down and advanced, wherever it stands. -/
instance : ReadsTokens Log where
  fail error := ⟨[], .error error⟩
  move cursor := ⟨[cursor], .ok cursor.advance⟩

/-- Changing the result advances nothing. -/
theorem bind_pure (log : Log α) (change : α → β) :
    (log >>= fun value => pure (change value)) =
      ⟨log.advanced, log.outcome.map change⟩ := by
  obtain ⟨advanced, outcome⟩ := log
  cases outcome with
  | error error => rfl
  | ok value =>
      exact congrArg (Log.mk · (.ok (change value))) (List.append_nil advanced)

end Log

/-! ## Trails -/

/-- The cursors stand one behind the other, from `start` up to `stop`, each
before a token that is not the end. -/
inductive Trail : Cursor → List Cursor → Cursor → Prop where
  | nil (cursor : Cursor) : Trail cursor [] cursor
  | cons {cursor stop : Cursor} {kind : TokenKind} {cursors : List Cursor}
      (peeked : cursor.peek? = some kind)
      (later : Trail cursor.advance cursors stop) :
      Trail cursor (cursor :: cursors) stop

namespace Trail

variable {start middle stop : Cursor} {first second : List Cursor}

theorem append
    (early : Trail start first middle)
    (late : Trail middle second stop) :
    Trail start (first ++ second) stop := by
  induction early with
  | nil => exact late
  | cons peeked _ inner => exact .cons peeked (inner late)

theorem peek?_ne_none (trail : Trail start first stop) :
    ∀ cursor ∈ first, cursor.peek? ≠ none := by
  induction trail with
  | nil => simp
  | cons peeked _ inner =>
      exact List.forall_mem_cons.2 ⟨by simp [peeked], inner⟩

theorem rest_eq_drop (trail : Trail start first stop) :
    stop.rest = start.rest.drop first.length := by
  induction trail with
  | nil => rfl
  | cons peeked _ inner =>
      obtain ⟨token, rest, _⟩ := Cursor.rest_eq_of_peek? peeked
      rw [inner, rest, List.length_cons, List.drop_succ_cons]

theorem map_rest (trail : Trail start first stop) :
    first.map Cursor.rest =
      (List.range first.length).map (start.rest.drop ·) := by
  induction trail with
  | nil => rfl
  | cons peeked _ inner =>
      obtain ⟨token, rest, _⟩ := Cursor.rest_eq_of_peek? peeked
      rw [List.map_cons, inner, List.length_cons, List.range_succ_eq_map,
        List.map_cons, List.map_map, rest]
      rfl

theorem length_le (trail : Trail start first stop) :
    first.length ≤ (beforeEnd start.rest).length := by
  induction trail with
  | nil => exact Nat.zero_le _
  | cons peeked _ inner =>
      obtain ⟨token, rest, _, inside, _⟩ := Cursor.rest_eq_of_peek? peeked
      rw [rest, beforeEnd, List.takeWhile_cons_of_pos (by simpa using inside)]
      exact Nat.succ_le_succ inner

theorem length_eq (trail : Trail start first stop) (ended : stop.peek? = none) :
    first.length = (beforeEnd start.rest).length := by
  induction trail with
  | nil cursor =>
      have nothing : beforeEnd ([] ++ cursor.rest) = [] :=
        Cursor.beforeEnd_eq (by simp) ended
      rw [List.nil_append] at nothing
      rw [nothing]
      rfl
  | cons peeked _ inner =>
      obtain ⟨token, rest, _, inside, _⟩ := Cursor.rest_eq_of_peek? peeked
      rw [rest, beforeEnd, List.takeWhile_cons_of_pos (by simpa using inside),
        List.length_cons, List.length_cons, inner ended]
      rfl

end Trail

/-- The computation gives the same with the log as without it, and the log is a
trail that ends at the place of the result, if there is one. -/
structure Logs
    (place : α → Cursor) (start : Cursor) (log : Log α)
    (plainly : Except SourceError α) : Prop where
  outcome : log.outcome = plainly
  trail : ∃ stop, Trail start log.advanced stop ∧
    ∀ value, plainly = .ok value → place value = stop

namespace Logs

variable {start cursor : Cursor} {place : α → Cursor} {further : β → Cursor}

theorem pure {value : α} (here : place value = start) :
    Logs place start (pure value) (pure value) where
  outcome := rfl
  trail := by
    refine ⟨start, .nil start, ?_⟩
    rintro _ ⟨⟩
    exact here

theorem fail {error : SourceError} :
    Logs place start (fail error) (fail error) where
  outcome := rfl
  trail := ⟨start, .nil start, by rintro _ ⟨⟩⟩

theorem bind {first : Log α}
    {plainly : Except SourceError α} {rest : α → Log β}
    {later : α → Except SourceError β}
    (early : Logs place start first plainly)
    (late : ∀ value, Logs further (place value) (rest value) (later value)) :
    Logs further start (first >>= rest) (plainly >>= later) := by
  obtain ⟨advanced, outcome⟩ := first
  obtain ⟨rfl, stop, trail, ends⟩ := early
  cases outcome with
  | error error => exact ⟨rfl, stop, trail, by rintro _ ⟨⟩⟩
  | ok value =>
      obtain ⟨same, last, behind, finished⟩ := late value
      have here : place value = stop := ends value rfl
      rw [here] at behind
      exact ⟨same, last, trail.append behind, finished⟩

/-- Advancing over a token and going on. -/
theorem move {kind : TokenKind} {rest : Cursor → Log β}
    {later : Cursor → Except SourceError β}
    (peeked : cursor.peek? = some kind)
    (late : Logs further cursor.advance (rest cursor.advance)
      (later cursor.advance)) :
    Logs further cursor (move cursor >>= rest) (move cursor >>= later) := by
  obtain ⟨same, stop, trail, ends⟩ := late
  exact ⟨same, stop, .cons peeked trail, ends⟩

end Logs

/-! ## The functions of the parser -/

section

variable (cursor : Cursor) (mark : Mark)

theorem logs_accept :
    Logs (·.getD cursor) cursor (cursor.accept mark) (cursor.accept mark) := by
  unfold Cursor.accept
  split
  next seen => exact .move (of_decide_eq_true seen) (.pure rfl)
  next => exact .pure rfl

theorem logs_expect :
    Logs id cursor (cursor.expect mark) (cursor.expect mark) := by
  unfold Cursor.expect
  split
  next seen =>
    refine ⟨rfl, cursor.advance, .cons (of_decide_eq_true seen) (.nil _), ?_⟩
    rintro _ ⟨⟩
    rfl
  next => exact .fail

theorem logs_identifier :
    Logs Prod.snd cursor cursor.identifier cursor.identifier := by
  unfold Cursor.identifier
  cases peeked : cursor.peek? with
  | none => exact .fail
  | some kind =>
      cases kind with
      | ident name => exact .move peeked (.pure rfl)
      | _ => exact .fail

theorem logs_operator (level : Precedence) :
    Logs (·.elim cursor Prod.snd) cursor (cursor.operator level)
      (cursor.operator level) := by
  unfold Cursor.operator
  cases peeked : cursor.peek? with
  | none => exact .pure rfl
  | some kind =>
      cases kind with
      | mark mark =>
          dsimp only
          cases level.operator? mark with
          | none => exact .pure rfl
          | some op => exact .move peeked (.pure rfl)
      | _ => exact .pure rfl

theorem logs_passSemicolonsFrom (previous : Position) (tokens : List Token) :
    Logs id ⟨tokens, previous⟩ (Cursor.passSemicolonsFrom previous tokens)
      (Cursor.passSemicolonsFrom previous tokens) := by
  induction tokens generalizing previous with
  | nil => exact .pure rfl
  | cons token rest inner =>
      simp only [Cursor.passSemicolonsFrom]
      split
      next semicolon =>
        let here : Cursor := ⟨token :: rest, previous⟩
        have peeked : here.peek? = some (.mark .semicolon) := by
          simp [here, Cursor.peek?, semicolon]
        have advanced : here.advance = ⟨rest, token.position⟩ := by
          simp [here, Cursor.advance, semicolon]
        apply Logs.move peeked
        rw [advanced]
        exact inner token.position
      next => exact .pure rfl

theorem logs_passSemicolons :
    Logs id cursor cursor.passSemicolons cursor.passSemicolons :=
  logs_passSemicolonsFrom cursor.previous cursor.rest

end

theorem logs_moreParameters (bound : Nat) (cursor : Cursor) :
    Logs Prod.snd cursor (moreParameters bound cursor)
      (moreParameters bound cursor) := by
  induction bound generalizing cursor with
  | zero => exact .fail
  | succ bound inner =>
      simp only [moreParameters]
      refine (logs_accept cursor .comma).bind fun accepted => ?_
      cases accepted with
      | some afterComma =>
          refine (logs_identifier afterComma).bind ?_
          rintro ⟨name, afterName⟩
          exact (inner afterName).bind fun _ => .pure rfl
      | none => exact (logs_expect cursor .rightParen).bind fun _ => .pure rfl

theorem logs_parameters (bound : Nat) (cursor : Cursor) :
    Logs Prod.snd cursor (parameters bound cursor)
      (parameters bound cursor) := by
  refine (logs_accept cursor .rightParen).bind fun accepted => ?_
  cases accepted with
  | some afterParen => exact .pure rfl
  | none =>
      refine (logs_identifier cursor).bind ?_
      rintro ⟨name, afterName⟩
      exact (logs_moreParameters bound afterName).bind fun _ => .pure rfl

mutual

theorem logs_expression (bound : Nat) (cursor : Cursor) :
    Logs Prod.snd cursor (expression bound cursor)
      (expression bound cursor) := by
  match bound with
  | 0 => exact .fail
  | bound + 1 =>
      simp only [expression]
      refine (logs_binary bound .equality cursor).bind ?_
      rintro ⟨target, afterTarget⟩
      refine (logs_accept afterTarget .assign).bind fun accepted => ?_
      cases accepted with
      | some afterMark =>
          exact (logs_expression bound afterMark).bind fun _ => .pure rfl
      | none => exact .pure rfl

theorem logs_binary (bound : Nat) (level : Precedence) (cursor : Cursor) :
    Logs Prod.snd cursor (binary bound level cursor)
      (binary bound level cursor) := by
  match bound with
  | 0 => exact .fail
  | bound + 1 =>
      simp only [binary]
      refine (logs_operand bound level cursor).bind ?_
      rintro ⟨left, afterLeft⟩
      exact logs_moreOperands bound level left afterLeft

theorem logs_moreOperands
    (bound : Nat) (level : Precedence) (left : Expr) (cursor : Cursor) :
    Logs Prod.snd cursor (moreOperands bound level left cursor)
      (moreOperands bound level left cursor) := by
  match bound with
  | 0 => exact .fail
  | bound + 1 =>
      simp only [moreOperands]
      refine (logs_operator cursor level).bind fun found => ?_
      cases found with
      | some result =>
          refine (logs_operand bound level result.2).bind ?_
          rintro ⟨right, afterRight⟩
          exact logs_moreOperands bound level _ afterRight
      | none => exact .pure rfl

theorem logs_operand (bound : Nat) (level : Precedence) (cursor : Cursor) :
    Logs Prod.snd cursor (operand bound level cursor)
      (operand bound level cursor) := by
  match bound with
  | 0 => exact .fail
  | bound + 1 =>
      simp only [operand]
      cases level.tighter? with
      | some tighter => exact logs_binary bound tighter cursor
      | none => exact logs_unary bound cursor

theorem logs_unary (bound : Nat) (cursor : Cursor) :
    Logs Prod.snd cursor (unary bound cursor) (unary bound cursor) := by
  match bound with
  | 0 => exact .fail
  | bound + 1 =>
      have called := logs_call bound cursor
      simp only [unary]
      cases peeked : cursor.peek? with
      | none => exact called
      | some kind =>
          cases kind with
          | mark mark =>
              dsimp only
              cases UnaryOp.ofMark? mark with
              | none => exact called
              | some op =>
                  apply Logs.move peeked
                  exact (logs_unary bound _).bind fun _ => .pure rfl
          | _ => exact called

theorem logs_call (bound : Nat) (cursor : Cursor) :
    Logs Prod.snd cursor (call bound cursor) (call bound cursor) := by
  match bound with
  | 0 => exact .fail
  | bound + 1 =>
      simp only [call]
      refine (logs_primary bound cursor).bind ?_
      rintro ⟨callee, afterCallee⟩
      exact logs_moreCalls bound callee afterCallee

theorem logs_moreCalls (bound : Nat) (callee : Expr) (cursor : Cursor) :
    Logs Prod.snd cursor (moreCalls bound callee cursor)
      (moreCalls bound callee cursor) := by
  match bound with
  | 0 => exact .fail
  | bound + 1 =>
      simp only [moreCalls]
      split
      next seen =>
        apply Logs.move (peek?_of_seesCall seen)
        refine (logs_arguments bound _).bind ?_
        rintro ⟨arguments, afterArguments⟩
        exact logs_moreCalls bound _ afterArguments
      next => exact .pure rfl

theorem logs_arguments (bound : Nat) (cursor : Cursor) :
    Logs Prod.snd cursor (arguments bound cursor)
      (arguments bound cursor) := by
  match bound with
  | 0 => exact .fail
  | bound + 1 =>
      simp only [arguments]
      refine (logs_accept cursor .rightParen).bind fun accepted => ?_
      cases accepted with
      | some afterParen => exact .pure rfl
      | none =>
          refine (logs_expression bound cursor).bind ?_
          rintro ⟨first, afterFirst⟩
          exact (logs_moreArguments bound afterFirst).bind fun _ => .pure rfl

theorem logs_moreArguments (bound : Nat) (cursor : Cursor) :
    Logs Prod.snd cursor (moreArguments bound cursor)
      (moreArguments bound cursor) := by
  match bound with
  | 0 => exact .fail
  | bound + 1 =>
      simp only [moreArguments]
      refine (logs_accept cursor .comma).bind fun accepted => ?_
      cases accepted with
      | some afterComma =>
          refine (logs_expression bound afterComma).bind ?_
          rintro ⟨first, afterFirst⟩
          exact (logs_moreArguments bound afterFirst).bind fun _ => .pure rfl
      | none => exact (logs_expect cursor .rightParen).bind fun _ => .pure rfl

theorem logs_primary (bound : Nat) (cursor : Cursor) :
    Logs Prod.snd cursor (primary bound cursor) (primary bound cursor) := by
  match bound with
  | 0 => exact .fail
  | bound + 1 =>
      simp only [primary]
      cases peeked : cursor.peek? with
      | none => exact .fail
      | some kind =>
          cases kind with
          | ident name => exact .move peeked (.pure rfl)
          | int value => exact .move peeked (.pure rfl)
          | float value => exact .move peeked (.pure rfl)
          | str text => exact .move peeked (.pure rfl)
          | mark mark =>
              cases mark with
              | leftParen =>
                  apply Logs.move peeked
                  refine (logs_expression bound _).bind ?_
                  rintro ⟨inner, afterInner⟩
                  exact (logs_expect afterInner .rightParen).bind
                    fun _ => .pure rfl
              | leftBrace =>
                  exact (logs_block bound cursor).bind fun _ => .pure rfl
              | _ => exact .fail
          | keyword word =>
              cases word with
              | yes => exact .move peeked (.pure rfl)
              | no => exact .move peeked (.pure rfl)
              | nothing => exact .move peeked (.pure rfl)
              | branch => exact logs_branch bound peeked
              | loop =>
                  apply Logs.move peeked
                  refine (logs_expression bound _).bind ?_
                  rintro ⟨condition, afterCondition⟩
                  exact (logs_block bound afterCondition).bind
                    fun _ => .pure rfl
              | define =>
                  apply Logs.move peeked
                  refine (logs_identifier _).bind ?_
                  rintro ⟨name, afterName⟩
                  refine (logs_expect afterName .leftParen).bind
                    fun afterParen => ?_
                  refine (logs_parameters bound afterParen).bind ?_
                  rintro ⟨names, afterNames⟩
                  exact (logs_block bound afterNames).bind fun _ => .pure rfl
              | attempt =>
                  apply Logs.move peeked
                  refine (logs_block bound _).bind ?_
                  rintro ⟨body, afterBody⟩
                  refine (logs_clauses bound afterBody).bind ?_
                  rintro ⟨clauses, afterClauses⟩
                  dsimp only
                  split
                  · exact .fail
                  · exact .pure rfl
              | perform =>
                  apply Logs.move peeked
                  refine (logs_identifier _).bind ?_
                  rintro ⟨effect, afterEffect⟩
                  dsimp only
                  split
                  next seen =>
                    apply Logs.move (peek?_of_seesCall seen)
                    refine (logs_accept _ .rightParen).bind
                      fun accepted => ?_
                    cases accepted with
                    | some afterParen => exact .pure rfl
                    | none =>
                        refine (logs_expression bound _).bind ?_
                        rintro ⟨payload, afterPayload⟩
                        exact (logs_expect afterPayload .rightParen).bind
                          fun _ => .pure rfl
                  next => exact .pure rfl
              | _ => exact .fail
          | endOfInput => exact .fail

theorem logs_branch
    (bound : Nat)
    {cursor : Cursor}
    (peeked : cursor.peek? = some (.keyword .branch)) :
    Logs Prod.snd cursor (branch bound cursor) (branch bound cursor) := by
  match bound with
  | 0 => exact .fail
  | bound + 1 =>
      simp only [branch]
      apply Logs.move peeked
      refine (logs_expression bound _).bind ?_
      rintro ⟨condition, afterCondition⟩
      refine (logs_block bound afterCondition).bind ?_
      rintro ⟨consequence, afterConsequence⟩
      dsimp only
      split
      next otherwise =>
        apply Logs.move otherwise
        split
        next again => exact (logs_branch bound again).bind fun _ => .pure rfl
        next => exact (logs_block bound _).bind fun _ => .pure rfl
      next => exact .pure rfl

theorem logs_clauses (bound : Nat) (cursor : Cursor) :
    Logs Prod.snd cursor (clauses bound cursor) (clauses bound cursor) := by
  match bound with
  | 0 => exact .fail
  | bound + 1 =>
      simp only [clauses]
      split
      next peeked =>
        apply Logs.move peeked
        refine (logs_identifier _).bind ?_
        rintro ⟨effect, afterEffect⟩
        refine (logs_expect afterEffect .leftParen).bind
          fun afterOpening => ?_
        refine (logs_identifier _).bind ?_
        rintro ⟨parameter, afterParameter⟩
        refine (logs_expect afterParameter .rightParen).bind
          fun afterClosing => ?_
        refine (logs_block bound _).bind ?_
        rintro ⟨body, afterBody⟩
        exact (logs_clauses bound afterBody).bind fun _ => .pure rfl
      next => exact .pure rfl

theorem logs_block (bound : Nat) (cursor : Cursor) :
    Logs Prod.snd cursor (block bound cursor) (block bound cursor) := by
  match bound with
  | 0 => exact .fail
  | bound + 1 =>
      simp only [block]
      refine (logs_expect cursor .leftBrace).bind fun afterOpening => ?_
      refine (logs_passSemicolons afterOpening).bind fun inside => ?_
      refine (logs_sequence bound true inside).bind ?_
      rintro ⟨expressions, afterExpressions⟩
      exact (logs_expect afterExpressions .rightBrace).bind
        fun _ => .pure rfl

theorem logs_sequence (bound : Nat) (braced : Bool) (cursor : Cursor) :
    Logs Prod.snd cursor (sequence bound braced cursor)
      (sequence bound braced cursor) := by
  match bound with
  | 0 => exact .fail
  | bound + 1 =>
      simp only [sequence]
      split
      · exact .pure rfl
      · refine (logs_expression bound cursor).bind ?_
        rintro ⟨first, afterFirst⟩
        refine (logs_passSemicolons afterFirst).bind fun next => ?_
        exact (logs_sequence bound braced next).bind fun _ => .pure rfl

end

/-! ## Progress -/

/-- The tokens are advanced over one after the other, from the first one on, and
none at or behind the end. -/
structure Log.Orderly (log : Log α) (tokens : List Token) : Prop where
  inside : ∀ cursor ∈ log.advanced, cursor.peek? ≠ none
  places : log.advanced.map Cursor.rest =
    (List.range log.advanced.length).map (tokens.drop ·)
  bounded : log.advanced.length ≤ (beforeEnd tokens).length

theorem Logs.orderly {place : α → Cursor} {start : Cursor}
    {log : Log α} {plainly : Except SourceError α}
    (logs : Logs place start log plainly) :
    log.Orderly start.rest := by
  obtain ⟨_, _, trail, _⟩ := logs
  exact ⟨trail.peek?_ne_none, trail.map_rest, trail.length_le⟩

/-- Every call of the parser function comes to an end, moves forward only, and
has moved when it succeeds. -/
structure Progresses
    (parser : ∀ {m : Type → Type} [Monad m] [ReadsTokens m], Nat → Cursor →
      m (α × Cursor)) :
    Prop where
  settles : ∀ bound cursor, depthFor cursor.rest.length ≤ bound →
    Settles (parser bound cursor)
  /-- Keeping the log changes no result. -/
  outcome : ∀ bound cursor,
    (parser bound cursor : Log (α × Cursor)).outcome = parser bound cursor
  orderly : ∀ bound cursor,
    (parser bound cursor : Log (α × Cursor)).Orderly cursor.rest
  moves : ∀ bound cursor result after,
    parser bound cursor = .ok (result, after) →
      let log : Log (α × Cursor) := parser bound cursor
      0 < log.advanced.length ∧
        after.rest = cursor.rest.drop log.advanced.length

/-- Logs tell of progress when results take tokens. -/
theorem Logs.progresses
    {parser : ∀ {m : Type → Type} [Monad m] [ReadsTokens m], Nat → Cursor →
      m (α × Cursor)}
    (logs : ∀ bound cursor, Logs Prod.snd cursor (parser bound cursor)
      (parser bound cursor))
    (settles : ∀ bound cursor, depthFor cursor.rest.length ≤ bound →
      Settles (parser bound cursor))
    (shorter : ∀ bound cursor result after, parser bound cursor = .ok
      (result, after) → after.rest.length < cursor.rest.length) :
    Progresses parser where
  settles := settles
  outcome bound cursor := (logs bound cursor).outcome
  orderly bound cursor := (logs bound cursor).orderly
  moves bound cursor result after read := by
    obtain ⟨_, stop, trail, ends⟩ := logs bound cursor
    obtain rfl : after = stop := ends _ read
    have fewer := shorter bound cursor result after read
    refine ⟨?_, trail.rest_eq_drop⟩
    rw [trail.rest_eq_drop, List.length_drop] at fewer
    omega

/-- A program is parsed to the end, whatever its tokens are. -/
structure Halts (tokens : List Token) : Prop where
  settles : Settles (Block.parse tokens)
  /-- A larger bound changes nothing. -/
  unbounded : ∀ bound, depthFor tokens.length ≤ bound →
    sequence bound false ⟨tokens, .start⟩ =
      sequence (depthFor tokens.length) false ⟨tokens, .start⟩
  outcome : (Block.parse tokens : Log Block).outcome = Block.parse tokens
  orderly : (Block.parse tokens : Log Block).Orderly tokens
  complete : ∀ program, Block.parse tokens = .ok program →
    (Block.parse tokens : Log Block).advanced.length =
      (beforeEnd tokens).length

theorem halts (tokens : List Token) : Halts tokens := by
  let cursor : Cursor := ⟨tokens, Position.start⟩
  have enough : 16 * cursor.rest.length + 14 ≤ depthFor tokens.length := by
    change 16 * tokens.length + 14 ≤ 16 * (tokens.length + 1)
    omega
  have logs := logs_sequence (depthFor tokens.length) false cursor
  let log : Log (List Expr × Cursor) :=
    sequence (depthFor tokens.length) false cursor
  have logged : (Block.parse tokens : Log Block) =
      ⟨log.advanced, log.outcome.map fun read => ⟨read.1, cursor.position⟩⟩ :=
    Log.bind_pure _ _
  have parsed : Block.parse tokens =
      Except.map (fun read => ⟨read.1, cursor.position⟩)
        (sequence (depthFor tokens.length) false cursor) :=
          Block.parse_eq tokens
  constructor
  case settles =>
    intro error failed
    rw [Block.parse_eq_error_iff] at failed
    exact settles_sequence false cursor enough error failed
  case unbounded =>
    intro bound larger
    exact sequence_eq_fully (Nat.le_trans enough larger)
  case outcome => rw [logged, parsed, logs.outcome]
  case orderly =>
    obtain ⟨inside, places, bounded⟩ := logs.orderly
    rw [logged]
    exact ⟨inside, places, bounded⟩
  case complete =>
    intro program succeeded
    obtain ⟨_, stop, trail, ends⟩ := logs
    rw [logged]
    cases read : sequence (depthFor tokens.length) false cursor with
    | error error =>
        rw [parsed, read] at succeeded
        cases succeeded
    | ok value =>
        have ended := peek?_of_sequence read
        rw [← ends value read] at trail
        exact trail.length_eq ended

theorem le_of_depthFor {tokenCount cost bound : Nat}
    (enough : depthFor tokenCount ≤ bound)
    (small : cost ≤ 16) :
    16 * tokenCount + cost ≤ bound := by
  have depth : depthFor tokenCount = 16 * tokenCount + 16 := rfl
  omega

theorem progresses_expression : Progresses expression := by
  apply Logs.progresses logs_expression
  case settles =>
    intro _ cursor enough
    exact settles_expression cursor (le_of_depthFor enough (by decide))
  case shorter =>
    intro bound cursor _ _ read
    exact (spends_expression bound cursor).length_lt read

theorem progresses_binary (level : Precedence) :
    Progresses (binary · level) := by
  apply Logs.progresses (logs_binary · level)
  case settles =>
    intro bound cursor enough
    have margin : 16 * cursor.rest.length + 14 ≤ bound :=
      le_of_depthFor enough (by decide)
    exact settles_binary level cursor (Nat.le_add_right_of_le margin)
  case shorter =>
    intro bound cursor _ _ read
    exact (spends_binary bound level cursor).length_lt read

theorem progresses_operand (level : Precedence) :
    Progresses (operand · level) := by
  apply Logs.progresses (logs_operand · level)
  case settles =>
    intro bound cursor enough
    have margin : 16 * cursor.rest.length + 13 ≤ bound :=
      le_of_depthFor enough (by decide)
    exact settles_operand level cursor (Nat.le_add_right_of_le margin)
  case shorter =>
    intro bound cursor _ _ read
    exact (spends_operand bound level cursor).length_lt read

theorem progresses_unary : Progresses unary := by
  apply Logs.progresses logs_unary
  case settles =>
    intro _ cursor enough
    exact settles_unary cursor (le_of_depthFor enough (by decide))
  case shorter =>
    intro bound cursor _ _ read
    exact (spends_unary bound cursor).length_lt read

theorem progresses_call : Progresses call := by
  apply Logs.progresses logs_call
  case settles =>
    intro _ cursor enough
    exact settles_call cursor (le_of_depthFor enough (by decide))
  case shorter =>
    intro bound cursor _ _ read
    exact (spends_call bound cursor).length_lt read

theorem progresses_primary : Progresses primary := by
  apply Logs.progresses logs_primary
  case settles =>
    intro _ cursor enough
    exact settles_primary cursor (le_of_depthFor enough (by decide))
  case shorter =>
    intro bound cursor _ _ read
    exact (spends_primary bound cursor).length_lt read

theorem progresses_block : Progresses block := by
  apply Logs.progresses logs_block
  case settles =>
    intro _ cursor enough
    exact settles_block cursor (le_of_depthFor enough (by decide))
  case shorter => exact fun _ _ _ _ read => length_lt_of_block read

/-- Whatever the tokens are, the parser comes to an end, and on the way it only
moves forward. -/
theorem parser_makes_progress :
    (∀ tokens, Halts tokens) ∧
      Progresses expression ∧
      (∀ level, Progresses (binary · level)) ∧
      (∀ level, Progresses (operand · level)) ∧
      Progresses unary ∧
      Progresses call ∧
      Progresses primary ∧
      Progresses block :=
  ⟨halts, progresses_expression, progresses_binary, progresses_operand,
    progresses_unary, progresses_call, progresses_primary, progresses_block⟩

/-- What stands behind the first end of the input is not looked at. -/
example :
    let parsed : Log Block := Block.parse
      [⟨.ident "a", ⟨1, 1⟩⟩, ⟨.endOfInput, ⟨1, 2⟩⟩, ⟨.ident "b", ⟨1, 3⟩⟩]
    parsed.advanced.length = 1 := rfl

end EffectScript.Parser
