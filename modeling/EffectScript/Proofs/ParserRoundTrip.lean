import EffectScript.Proofs.ParserBound

/-!
# The parser reads back what is written

A program that is written canonically on one line is read back as it was, up to
places.

The argument follows the grammar. Every token that can go on with an expression
has a *grip*, the tightness of the loosest form that it goes on with. A parser
function for a tightness reads the words of an expression and stops, if the next
token has a looser grip. Operators that group to the left, and calls, need more:
there the words of the left operand leave the parser inside its loop, and it is
the loop that reads the rest.
-/

namespace EffectScript

open EffectScript.Parser

/-! ## What can follow an expression -/

/-- The tightness of the loosest form that the token goes on with, if it goes on
with any. -/
def TokenKind.grip? : TokenKind → Option Nat
  | .mark .assign => some 0
  | .mark .equalTo | .mark .notEqualTo => some 1
  | .mark .less | .mark .atMost | .mark .greater | .mark .atLeast => some 2
  | .mark .plus | .mark .minus => some 3
  | .mark .star | .mark .slash => some 4
  | .mark .leftParen => some 6
  | .keyword .otherwise | .keyword .handle => some 7
  | _ => none

/-- The next token does not go on with an expression of the given tightness or
with a part of it. -/
def Stops (tightness : Nat) (rest : List TokenKind) : Prop :=
  ∀ kind ∈ rest.head?, ∀ grip ∈ kind.grip?, grip < tightness

namespace Stops

variable {tightness tighter : Nat} {kind : TokenKind} {rest : List TokenKind}

theorem mono (stops : Stops tightness rest) (less : tightness ≤ tighter) :
    Stops tighter rest :=
  fun kind next grip grips =>
    Nat.lt_of_lt_of_le (stops kind next grip grips) less

theorem of_grip?_eq_none (loose : kind.grip? = none) :
    Stops tightness (kind :: rest) := by
  rintro _ ⟨⟩ grip grips
  rw [loose] at grips
  cases grips

theorem of_grip?_eq_some {grip : Nat}
    (grips : kind.grip? = some grip)
    (less : grip < tightness) :
    Stops tightness (kind :: rest) := by
  rintro _ ⟨⟩ other otherGrips
  rw [grips] at otherGrips
  cases otherGrips
  exact less

/-- There is no grip that tight. -/
theorem of_all (rest : List TokenKind) : Stops 8 rest := by
  intro kind _ grip grips
  unfold TokenKind.grip? at grips
  split at grips <;> cases grips <;> decide

end Stops

theorem BinaryOp.grip?_mark (op : BinaryOp) :
    (TokenKind.mark op.mark).grip? = some op.level.rank := by
  cases op <;> rfl

/-! ## Cursors on one line -/

/-- The cursor has tokens of the given kinds to read, all on one line. -/
structure Cursor.Shows (line : Nat) (kinds : List TokenKind) (cursor : Cursor) :
    Prop where
  kinds_eq : cursor.rest.map Token.kind = kinds
  onLine : ∀ token ∈ cursor.rest, token.position.line = line

/-- The cursor stands behind a token of the line, too. -/
structure Cursor.Continues
    (line : Nat) (kinds : List TokenKind) (cursor : Cursor) :
    Prop extends Cursor.Shows line kinds cursor where
  previous : cursor.previous.line = line

namespace Cursor.Shows

variable {line tightness : Nat} {cursor : Cursor} {kind : TokenKind}
    {kinds rest : List TokenKind}

theorem congr (shows : cursor.Shows line kinds) (same : kinds = rest) :
    cursor.Shows line rest :=
  same ▸ shows

/-- The cursor has a first token. -/
theorem cons (shows : cursor.Shows line (kind :: rest)) :
    ∃ token tokens, cursor.rest = token :: tokens ∧ token.kind = kind ∧
      tokens.map Token.kind = rest := by
  obtain ⟨token, tokens, rest_eq, kind_eq, kinds_eq⟩ :=
    List.map_eq_cons_iff.1 shows.kinds_eq
  exact ⟨token, tokens, rest_eq, kind_eq, kinds_eq⟩

theorem peek?
    (shows : cursor.Shows line (kind :: rest))
    (inside : kind ≠ .endOfInput) :
    cursor.peek? = some kind := by
  obtain ⟨token, tokens, rest_eq, rfl, _⟩ := shows.cons
  simp [Cursor.peek?, rest_eq, inside]

theorem peek?_end (shows : cursor.Shows line (.endOfInput :: rest)) :
    cursor.peek? = none := by
  obtain ⟨token, tokens, rest_eq, kind_eq, _⟩ := shows.cons
  simp [Cursor.peek?, rest_eq, kind_eq]

theorem advance
    (shows : cursor.Shows line (kind :: rest))
    (inside : kind ≠ .endOfInput) :
    cursor.advance.Continues line rest := by
  obtain ⟨token, tokens, rest_eq, rfl, kinds_eq⟩ := shows.cons
  have advanced : cursor.advance = ⟨tokens, token.position⟩ := by
    simp [Cursor.advance, rest_eq, inside]
  rw [advanced]
  exact
    { kinds_eq := kinds_eq
      onLine := fun other member =>
        shows.onLine other (by simp [rest_eq, member])
      previous := shows.onLine token (by simp [rest_eq]) }

/-- A token that the cursor sees is the first one. -/
theorem head?_of_peek?
    (shows : cursor.Shows line kinds)
    (peeked : cursor.peek? = some kind) :
    kind ∈ kinds.head? := by
  obtain ⟨token, rest_eq, rfl, _⟩ := Cursor.rest_eq_of_peek? peeked
  simp [← shows.kinds_eq, rest_eq]

/-- Where the tokens stop, the cursor sees no tighter grip. -/
theorem grip_lt
    (shows : cursor.Shows line kinds)
    (stops : Stops tightness kinds)
    (peeked : cursor.peek? = some kind)
    {grip : Nat}
    (grips : kind.grip? = some grip) :
    grip < tightness :=
  stops kind (shows.head?_of_peek? peeked) grip grips

theorem accept? {mark : Mark} (shows : cursor.Shows line (.mark mark :: rest)) :
    cursor.accept? mark = some cursor.advance := by
  simp [Cursor.accept?, Cursor.sees, shows.peek?]

theorem accept?_other {mark : Mark}
    (shows : cursor.Shows line (kind :: rest))
    (different : kind ≠ .mark mark) :
    cursor.accept? mark = none := by
  have unseen : cursor.peek? ≠ some (.mark mark) := by
    intro peeked
    exact different (Option.some.inj (shows.head?_of_peek? peeked))
  simp [Cursor.accept?, Cursor.sees, unseen]

theorem accept?_eq_none {mark : Mark}
    (shows : cursor.Shows line kinds)
    (stops : Stops tightness kinds)
    (grips : (TokenKind.mark mark).grip? = some tightness) :
    cursor.accept? mark = none := by
  have unseen : cursor.peek? ≠ some (.mark mark) := by
    intro peeked
    exact absurd (shows.grip_lt stops peeked grips) (Nat.lt_irrefl _)
  simp [Cursor.accept?, Cursor.sees, unseen]

theorem expect {mark : Mark} (shows : cursor.Shows line (.mark mark :: rest)) :
    cursor.expect mark = .ok cursor.advance := by
  have seen : cursor.sees mark = true := decide_eq_true (shows.peek? nofun)
  exact if_pos seen

theorem identifier {name : String}
    (shows : cursor.Shows line (.ident name :: rest)) :
    cursor.identifier = .ok (name, cursor.advance) := by
  rw [Cursor.identifier, shows.peek? nofun]
  rfl

theorem skipSemicolons
    (shows : cursor.Shows line (kind :: rest))
    (different : kind ≠ .mark .semicolon) :
    cursor.skipSemicolons = cursor := by
  obtain ⟨token, tokens, rest_eq, rfl, _⟩ := shows.cons
  obtain ⟨tokensLeft, previous⟩ := cursor
  cases rest_eq
  simp [Cursor.skipSemicolons, Cursor.skipSemicolonsFrom, different]

theorem skipSemicolons_one
    (shows : cursor.Shows line (.mark .semicolon :: rest)) :
    cursor.skipSemicolons = cursor.advance.skipSemicolons := by
  obtain ⟨token, tokens, rest_eq, kind_eq, _⟩ := shows.cons
  obtain ⟨tokensLeft, previous⟩ := cursor
  cases rest_eq
  simp [Cursor.skipSemicolons, Cursor.skipSemicolonsFrom,
    Cursor.advance, kind_eq]

end Cursor.Shows

namespace Cursor.Continues

variable {line tightness : Nat} {cursor : Cursor} {kinds rest : List TokenKind}

theorem seesCall
    (continues : cursor.Continues line (.mark .leftParen :: rest)) :
    cursor.seesCall := by
  obtain ⟨token, tokens, rest_eq, _, _⟩ := continues.toShows.cons
  have here : cursor.position.line = line := by
    simp [Cursor.position, rest_eq, continues.onLine token]
  simp [Cursor.seesCall, Cursor.sees, continues.toShows.peek?, here,
    continues.previous]

theorem seesCall_eq_false
    (shows : cursor.Shows line kinds)
    (stops : Stops 6 kinds) :
    cursor.seesCall = false := by
  have unseen : cursor.peek? ≠ some (.mark .leftParen) := by
    intro peeked
    exact absurd (shows.grip_lt stops peeked rfl) (by decide)
  simp [Cursor.seesCall, Cursor.sees, unseen]

end Cursor.Continues

/-! ## Reading words back -/

section Recovery

variable {α : Type}

/-- On tokens of the given kinds the parser gives a good result and stops behind
them, if what follows them stops a form of the given tightness. -/
def Recovers
    (parser : Cursor → Except SourceError (α × Cursor))
    (tightness : Nat) (kinds : List TokenKind) (good : α → Prop) : Prop :=
  ∀ line rest cursor, Cursor.Shows line (kinds ++ rest) cursor →
    Stops tightness rest →
    ∃ result after, parser cursor = .ok (result, after) ∧ good result ∧
      after.Continues line rest

end Recovery

/-- The expression that was read is the written one up to places. -/
def Restores (expression read : Expr) : Prop :=
  read.unplaced = expression.unplaced

/-- The parser function for forms of a tightness. -/
def parserAt : Nat → Cursor → Except SourceError (Expr × Cursor)
  | 0 => fully expression
  | 1 => fully (binary · .equality)
  | 2 => fully (binary · .ordering)
  | 3 => fully (binary · .sum)
  | 4 => fully (binary · .product)
  | 5 => fully unary
  | 6 => fully call
  | _ => fully primary

/-- The expression is read back from words by the parser function for a
tightness. -/
def ReadsAt (tightness : Nat) (kinds : List TokenKind) (expression : Expr) :
    Prop :=
  Recovers (parserAt tightness) tightness kinds (Restores expression)

/-- The words of the expression bring the parser of a level into its loop, with
the expression as the left operand read so far. -/
def EntersLoop
    (level : Precedence) (kinds : List TokenKind) (expression : Expr) : Prop :=
  ∀ line rest cursor, Cursor.Shows line (kinds ++ rest) cursor →
    Stops (level.rank + 1) rest →
    ∃ left after, fully (binary · level) cursor = fully
        (moreOperands · level left) after ∧
      Restores expression left ∧ after.Continues line rest

/-- The words of the expression bring the parser of calls into its loop, with
the expression as the callee. -/
def EntersCalls (kinds : List TokenKind) (expression : Expr) : Prop :=
  ∀ line rest cursor, Cursor.Shows line (kinds ++ rest) cursor → Stops 7 rest →
    ∃ callee after, fully call cursor = fully (moreCalls · callee) after ∧
      Restores expression callee ∧ after.Continues line rest

section Levels

variable {kinds : List TokenKind} {expression : Expr} {level : Precedence}
    {cursor : Cursor}

theorem parserAt_rank (level : Precedence) :
    parserAt level.rank = fully (binary · level) := by
  cases level <;> rfl

theorem fully_operand_eq (level : Precedence) (cursor : Cursor) :
    fully (operand · level) cursor = parserAt (level.rank + 1) cursor := by
  rw [fully_operand]
  cases level <;> rfl

theorem operator?_eq_none {line : Nat}
    (shows : cursor.Shows line kinds)
    (stops : Stops level.rank kinds) :
    cursor.operator? level = none := by
  unfold Cursor.operator?
  split
  next mark peeked =>
    cases read : level.operator? mark with
    | none => rfl
    | some op =>
        obtain ⟨rfl, rfl⟩ := Precedence.operator?_eq_some_iff.1 read
        exact absurd (shows.grip_lt stops peeked op.grip?_mark)
          (Nat.lt_irrefl _)
  next => rfl

/-- The loop ends where the tokens stop. -/
theorem EntersLoop.readsAt (enters : EntersLoop level kinds expression) :
    ReadsAt level.rank kinds expression := by
  intro line rest cursor shows stops
  obtain ⟨left, after, loops, restores, continues⟩ :=
    enters line rest cursor shows (stops.mono (Nat.le_succ _))
  refine ⟨left, after, ?_, restores, continues⟩
  rw [parserAt_rank, loops, fully_moreOperands,
    operator?_eq_none continues.toShows stops]

/-- An operand brings the parser into the loop. -/
theorem ReadsAt.entersLoop (reads : ReadsAt (level.rank + 1) kinds expression) :
    EntersLoop level kinds expression := by
  intro line rest cursor shows stops
  obtain ⟨left, after, read, restores, continues⟩ :=
    reads line rest cursor shows stops
  refine ⟨left, after, ?_, restores, continues⟩
  rw [fully_binary, fully_operand_eq, read]
  rfl

theorem EntersCalls.readsAt (enters : EntersCalls kinds expression) :
    ReadsAt 6 kinds expression := by
  intro line rest cursor shows stops
  obtain ⟨callee, after, loops, restores, continues⟩ :=
    enters line rest cursor shows (stops.mono (by decide))
  refine ⟨callee, after, ?_, restores, continues⟩
  show fully call cursor = _
  rw [loops, fully_moreCalls,
    Cursor.Continues.seesCall_eq_false continues.toShows stops]
  rfl

theorem ReadsAt.entersCalls (reads : ReadsAt 7 kinds expression) :
    EntersCalls kinds expression := by
  intro line rest cursor shows stops
  obtain ⟨callee, after, read, restores, continues⟩ :=
    reads line rest cursor shows stops
  refine ⟨callee, after, ?_, restores, continues⟩
  rw [fully_call]
  rw [show fully primary cursor = .ok (callee, after) from read]
  rfl

/-- No primary begins with a prefix operator. -/
theorem not_prefix_of_call {result : Expr × Cursor}
    (read : fully call cursor = .ok result)
    (op : UnaryOp) :
    cursor.peek? ≠ some (.mark op.mark) := by
  intro peeked
  have refused : fully primary cursor = .error (cursor.refuse .expression) := by
    rw [fully_eq primary, primary]
    cases op <;> simp only [plain, peeked, UnaryOp.mark, Literal.ofToken?_mark]
  rw [fully_call, refused] at read
  cases read

/-- What a tighter parser function reads, a looser one reads. -/
theorem ReadsAt.loosen {tightness : Nat}
    (least : tightness < 7)
    (reads : ReadsAt (tightness + 1) kinds expression) :
    ReadsAt tightness kinds expression := by
  match tightness, least with
  | 0, _ =>
      intro line rest cursor shows stops
      obtain ⟨read, after, parsed, restores, continues⟩ :=
        reads line rest cursor shows (stops.mono (by decide))
      refine ⟨read, after, ?_, restores, continues⟩
      have stopped : after.accept? .assign = none :=
        continues.toShows.accept?_eq_none stops rfl
      show fully Parser.expression cursor = _
      rw [fully_expression, show fully (binary · .equality) cursor = .ok
        (read, after) from parsed]
      simp only [Outcome.ok_bind, stopped]
      rfl
  | 1, _ =>
      exact (ReadsAt.entersLoop reads :
        EntersLoop .equality kinds expression).readsAt
  | 2, _ =>
      exact (ReadsAt.entersLoop reads :
        EntersLoop .ordering kinds expression).readsAt
  | 3, _ =>
      exact (ReadsAt.entersLoop reads :
        EntersLoop .sum kinds expression).readsAt
  | 4, _ =>
      exact (ReadsAt.entersLoop reads :
        EntersLoop .product kinds expression).readsAt
  | 5, _ =>
      intro line rest cursor shows stops
      obtain ⟨read, after, parsed, restores, continues⟩ :=
        reads line rest cursor shows (stops.mono (by decide))
      refine ⟨read, after, ?_, restores, continues⟩
      exact (fully_unary_call (not_prefix_of_call parsed)).trans parsed
  | 6, _ => exact reads.entersCalls.readsAt

theorem ReadsAt.loosenTo {tightness looser : Nat}
    (reads : ReadsAt tightness kinds expression)
    (most : tightness ≤ 7)
    (less : looser ≤ tightness) :
    ReadsAt looser kinds expression := by
  induction tightness with
  | zero => exact Nat.le_zero.1 less ▸ reads
  | succ tightness inner =>
      rcases Nat.lt_or_eq_of_le less with smaller | rfl
      · exact inner (reads.loosen most) (Nat.le_of_succ_le most)
          (Nat.le_of_lt_succ smaller)
      · exact reads

/-- Parentheses make a primary of any expression. -/
theorem ReadsAt.parenthesised (reads : ReadsAt 0 kinds expression) :
    ReadsAt 7 (.mark .leftParen :: kinds ++ [.mark .rightParen])
      expression := by
  intro line rest cursor shows _
  have opening : cursor.Shows line
      (.mark .leftParen :: (kinds ++ .mark .rightParen :: rest)) :=
    shows.congr (by simp)
  obtain ⟨read, after, parsed, restores, continues⟩ :=
    reads line (.mark .rightParen :: rest) cursor.advance
      (opening.advance (by simp)).toShows (.of_grip?_eq_none rfl)
  refine ⟨read, after.advance, ?_, restores, continues.advance (by simp)⟩
  show fully primary cursor = _
  rw [fully_primary_group (opening.peek? (by simp)),
    show fully Parser.expression cursor.advance = .ok (read, after) from parsed]
  simp only [Outcome.ok_bind, continues.toShows.expect]
  rfl

end Levels

/-! ## Expressions in their contexts -/

/-- The canonical writing of an expression in a context of the given
tightness. -/
def Expr.kindsIn (context : Nat) (expression : Expr) : List TokenKind :=
  (expression.inContext context expression.words).map Word.kind

/-- What can stand behind `else` is read back there. -/
def ReadsAlternative : Expr → Prop
  | .block body =>
      Recovers (fully block) 8 (body.words.map Word.kind) fun read =>
        read.unplaced = body.unplaced
  | .branch condition consequence alternative position =>
      let expression := Expr.branch condition consequence alternative position
      Recovers (fully branch) 7 (expression.kindsIn 0) (Restores expression)
  | _ => True

/-- The expression is read back wherever it can stand. -/
structure Readable (expression : Expr) : Prop where
  readsAt : ∀ context ≤ 7, ReadsAt context
    (expression.kindsIn context) expression
  entersLoop : ∀ level, EntersLoop level
    (expression.kindsIn level.rank) expression
  entersCalls : EntersCalls (expression.kindsIn 6) expression
  alternative : ReadsAlternative expression

section Contexts

variable {expression : Expr} {context : Nat}

@[simp]
theorem Expr.inContext_zero (expression : Expr) (words : List Word) :
    expression.inContext 0 words = words := by
  simp [Expr.inContext]

theorem Expr.kindsIn_of_le (tight : context ≤ expression.tightness) :
    expression.kindsIn context = expression.kindsIn 0 := by
  simp [Expr.kindsIn, Expr.inContext, Nat.not_lt.2 tight]

theorem Expr.kindsIn_of_lt (loose : expression.tightness < context) :
    expression.kindsIn context =
      .mark .leftParen :: expression.kindsIn 0 ++ [.mark .rightParen] := by
  simp [Expr.kindsIn, Expr.inContext, loose, EffectScript.parenthesised]

theorem Expr.tightness_le (expression : Expr) : expression.tightness ≤ 7 := by
  cases expression with
  | binary op _ _ _ => exact Nat.le_trans op.level.rank_le (by decide)
  | _ => simp [Expr.tightness]

/-- It is enough to read an expression back where it needs no parentheses and
what follows it stops exactly its form. -/
theorem Readable.intro
    (own : ReadsAt expression.tightness (expression.kindsIn 0) expression)
    (loop : ∀ level : Precedence, level.rank = expression.tightness →
      EntersLoop level (expression.kindsIn 0) expression)
    (calls : expression.tightness = 6 →
      EntersCalls (expression.kindsIn 0) expression)
    (alternative : ReadsAlternative expression) :
    Readable expression := by
  have loosest : ReadsAt 0 (expression.kindsIn 0) expression :=
    own.loosenTo expression.tightness_le (Nat.zero_le _)
  have readsAt : ∀ context ≤ 7, ReadsAt context (expression.kindsIn context)
      expression := by
    intro context most
    rcases Nat.lt_or_ge expression.tightness context with loose | tight
    · rw [Expr.kindsIn_of_lt loose]
      exact loosest.parenthesised.loosenTo (Nat.le_refl _) most
    · rw [Expr.kindsIn_of_le tight]
      exact own.loosenTo expression.tightness_le tight
  -- a form of another tightness is written in the same way one level further in
  have tighter : ∀ context, context ≠ expression.tightness →
      expression.kindsIn context = expression.kindsIn (context + 1) := by
    intro context different
    rcases Nat.lt_or_gt_of_ne different with less | greater
    · rw [Expr.kindsIn_of_le (Nat.le_of_lt less), Expr.kindsIn_of_le less]
    · rw [Expr.kindsIn_of_lt greater,
        Expr.kindsIn_of_lt (Nat.lt_succ_of_lt greater)]
  refine ⟨readsAt, ?_, ?_, alternative⟩
  · intro level
    by_cases same : level.rank = expression.tightness
    · rw [Expr.kindsIn_of_le (Nat.le_of_eq same)]
      exact loop level same
    · rw [tighter level.rank same]
      have inside := level.rank_le
      exact (readsAt (level.rank + 1) (by omega)).entersLoop
  · by_cases same : expression.tightness = 6
    · rw [Expr.kindsIn_of_le (Nat.le_of_eq same.symm)]
      exact calls same
    · rw [tighter 6 (Ne.symm same)]
      exact (readsAt 7 (Nat.le_refl _)).entersCalls

/-- Primaries are read back as such. -/
theorem Readable.of_primary
    (tight : expression.tightness = 7)
    (reads : ReadsAt 7 (expression.kindsIn 0) expression)
    (alternative : ReadsAlternative expression) :
    Readable expression := by
  refine .intro (tight.symm ▸ reads) (fun level same => ?_)
    (fun same => ?_) alternative
  · have inside := level.rank_le
    omega
  · omega

end Contexts

/-! ## Beginnings -/

/-- Whether an expression can begin with the token. -/
def TokenKind.isOpening : TokenKind → Bool
  | .ident _ | .int _ | .float _ | .str _ => true
  | .keyword .otherwise | .keyword .handle => false
  | .keyword _ => true
  | .mark .leftParen | .mark .leftBrace | .mark .minus | .mark .bang => true
  | _ => false

@[simp]
theorem kinds_beginningAt (position : Position) (words : List Word) :
    (beginningAt position words).map Word.kind = words.map Word.kind := by
  induction words with
  | nil => rfl
  | cons word words inner =>
      simp only [beginningAt]
      split
      · rfl
      · rw [List.map_cons, List.map_cons, inner]

theorem Expr.kindsIn_zero (expression : Expr) :
    expression.kindsIn 0 = expression.words.map Word.kind := by
  simp [Expr.kindsIn]

/-- The words open an expression. -/
def Opens (kinds : List TokenKind) : Prop :=
  ∃ kind rest, kinds = kind :: rest ∧ kind.isOpening

theorem Opens.append {kinds : List TokenKind}
    (opens : Opens kinds) (more : List TokenKind) :
    Opens (kinds ++ more) := by
  obtain ⟨kind, rest, rfl, opening⟩ := opens
  exact ⟨kind, rest ++ more, rfl, opening⟩

theorem Opens.inContext {expression : Expr}
    (opens : Opens (expression.kindsIn 0))
    (context : Nat) :
    Opens (expression.kindsIn context) := by
  rcases Nat.lt_or_ge expression.tightness context with loose | tight
  · rw [Expr.kindsIn_of_lt loose]
    exact ⟨_, _, rfl, rfl⟩
  · rw [Expr.kindsIn_of_le tight]
    exact opens

theorem Expr.opens : (expression : Expr) → Opens (expression.kindsIn 0)
  | .ident .. => ⟨_, _, rfl, rfl⟩
  | .literal value _ =>
        ⟨value.token, [], by simp [kindsIn_zero, words, kinds_beginningAt], by
      cases value with
      | bool value => cases value <;> rfl
      | _ => rfl⟩
  | .binary op left right _ => by
      rw [kindsIn_zero, words, kinds_beginningAt, List.map_append]
      exact (left.opens.inContext _).append _
  | .unary op _ _ =>
        ⟨.mark op.mark, _, by
          rw [kindsIn_zero, words, kinds_beginningAt]; rfl, by
      cases op <;> rfl⟩
  | .call callee _ _ => by
      rw [kindsIn_zero, words, kinds_beginningAt, List.map_append]
      exact (callee.opens.inContext _).append _
  | .assign target _ _ => by
      rw [kindsIn_zero, words, kinds_beginningAt, List.map_append]
      exact (target.opens.inContext _).append _
  | .define .. => ⟨_, _, rfl, rfl⟩
  | .block ⟨_, _⟩ => ⟨_, _, rfl, rfl⟩
  | .branch .. => ⟨_, _, rfl, rfl⟩
  | .loop .. => ⟨_, _, rfl, rfl⟩
  | .attempt .. => ⟨_, _, rfl, rfl⟩
  | .perform .. => ⟨_, _, rfl, rfl⟩

theorem Cursor.Shows.accept?_of_opens {line : Nat}
    {cursor : Cursor} {kinds : List TokenKind} {mark : Mark}
    (shows : cursor.Shows line kinds)
    (opens : Opens kinds)
    (closing : (TokenKind.mark mark).isOpening = false) :
    cursor.accept? mark = none := by
  obtain ⟨kind, rest, rfl, opening⟩ := opens
  refine shows.accept?_other ?_
  rintro rfl
  rw [closing] at opening
  cases opening

theorem Cursor.Shows.skipSemicolons_of_opens {line : Nat}
    {cursor : Cursor} {kinds : List TokenKind}
    (shows : cursor.Shows line kinds)
    (opens : Opens kinds) :
    cursor.skipSemicolons = cursor := by
  obtain ⟨kind, rest, rfl, opening⟩ := opens
  refine shows.skipSemicolons ?_
  rintro rfl
  cases opening

/-- Where an expression begins, a block does not end. -/
theorem Cursor.Shows.goesOn_of_opens {line : Nat}
    {cursor : Cursor} {kinds : List TokenKind}
    (shows : cursor.Shows line kinds)
    (opens : Opens kinds) (braced : Bool) :
    ¬ (cursor.peek?.isNone || (braced && cursor.sees .rightBrace)) = true := by
  obtain ⟨kind, rest, rfl, opening⟩ := opens
  have peeked : cursor.peek? = some kind := by
    refine shows.peek? ?_
    rintro rfl
    cases opening
  have different : kind ≠ .mark .rightBrace := by
    rintro rfl
    cases opening
  simp [Cursor.sees, peeked, different]

/-! ## Lists -/

section Lists

variable {expressions : List Expr} {line : Nat} {rest : List TokenKind}
    {cursor : Cursor}

/-- A whole expression is read back. -/
theorem Readable.read {expression : Expr}
    (readable : Readable expression)
    (shows : cursor.Shows line (expression.kindsIn 0 ++ rest))
    (stops : Stops 0 rest) :
    ∃ read after, fully Parser.expression cursor = .ok (read, after) ∧
      Restores expression read ∧
      after.Continues line rest :=
  readable.readsAt 0 (by decide) line rest cursor shows stops

theorem stops_furtherWords {separator : Mark}
    {closing : TokenKind} {tightness : Nat}
    (separates : (TokenKind.mark separator).grip? = none)
    (closes : closing.grip? = none) :
    Stops tightness ((furtherWords separator expressions).map Word.kind ++
      closing :: rest) := by
  cases expressions with
  | nil => exact .of_grip?_eq_none closes
  | cons first others => exact .of_grip?_eq_none separates

theorem recovers_moreArguments
    (readable : ∀ expression ∈ expressions, Readable expression) :
    Recovers (fully moreArguments) 8
      ((furtherWords .comma expressions).map Word.kind ++ [.mark .rightParen])
      fun read => unplacedAll read = unplacedAll expressions := by
  induction expressions with
  | nil =>
      intro line rest cursor shows _
      have closing : cursor.Shows line (.mark .rightParen :: rest) := shows
      refine ⟨[], cursor.advance, ?_, rfl, closing.advance (by simp)⟩
      rw [fully_moreArguments, closing.accept?_other (by simp)]
      simp only [closing.expect]
      rfl
  | cons first others inner =>
      intro line rest cursor shows stops
      have comma : cursor.Shows line (.mark .comma :: (first.kindsIn 0 ++
          ((furtherWords .comma others).map Word.kind ++
            .mark .rightParen :: rest))) :=
        shows.congr (by simp [furtherWords, Expr.kindsIn_zero])
      obtain ⟨read, afterFirst, firstRead, restores, continues⟩ :=
        (readable first List.mem_cons_self).read
          (comma.advance (by simp)).toShows (stops_furtherWords rfl rfl)
      obtain ⟨readOthers, after, othersRead, meanOthers, last⟩ :=
        inner
          (fun other member => readable other (List.mem_cons_of_mem _ member))
          line rest afterFirst (continues.toShows.congr (by simp)) stops
      refine ⟨read :: readOthers, after, ?_, ?_, last⟩
      · rw [fully_moreArguments, comma.accept?]
        simp only [firstRead, othersRead, Outcome.ok_bind]
        rfl
      · simp only [unplacedAll, meanOthers]
        rw [restores]

theorem recovers_arguments
    (readable : ∀ expression ∈ expressions, Readable expression) :
    Recovers (fully arguments) 8
      ((separatedWords .comma expressions).map Word.kind ++ [.mark .rightParen])
      fun read => unplacedAll read = unplacedAll expressions := by
  intro line rest cursor shows stops
  cases expressions with
  | nil =>
      have closing : cursor.Shows line (.mark .rightParen :: rest) := shows
      refine ⟨[], cursor.advance, ?_, rfl, closing.advance (by simp)⟩
      rw [fully_arguments, closing.accept?]
  | cons first others =>
      have begun : cursor.Shows line (first.kindsIn 0 ++
          ((furtherWords .comma others).map Word.kind ++
            .mark .rightParen :: rest)) :=
        shows.congr (by simp [separatedWords, Expr.kindsIn_zero])
      obtain ⟨read, afterFirst, firstRead, restores, continues⟩ :=
        (readable first List.mem_cons_self).read begun
          (stops_furtherWords rfl rfl)
      obtain ⟨readOthers, after, othersRead, meanOthers, last⟩ :=
        recovers_moreArguments
          (fun other member => readable other (List.mem_cons_of_mem _ member))
          line rest afterFirst (continues.toShows.congr (by simp)) stops
      refine ⟨read :: readOthers, after, ?_, ?_, last⟩
      · rw [fully_arguments, begun.accept?_of_opens (first.opens.append _) rfl]
        simp only [firstRead, othersRead, Outcome.ok_bind]
        rfl
      · simp only [unplacedAll, meanOthers]
        rw [restores]

theorem recovers_moreParameters (names : List String) :
    Recovers (fully moreParameters) 8
      ((names.flatMap fun name => [Word.mark .comma, Word.ident name]).map
        Word.kind ++
        [.mark .rightParen])
      (· = names) := by
  induction names with
  | nil =>
      intro line rest cursor shows _
      have closing : cursor.Shows line (.mark .rightParen :: rest) := shows
      refine ⟨[], cursor.advance, ?_, rfl, closing.advance (by simp)⟩
      rw [fully_moreParameters, closing.accept?_other (by simp)]
      simp only [closing.expect]
      rfl
  | cons name names inner =>
      intro line rest cursor shows stops
      have comma : cursor.Shows line (.mark .comma :: .ident name ::
          ((names.flatMap fun name => [Word.mark .comma, Word.ident name]).map
            Word.kind ++
            [.mark .rightParen] ++ rest)) :=
        shows.congr (by simp)
      have named := (comma.advance (by simp)).toShows
      obtain ⟨others, after, othersRead, rfl, last⟩ :=
        inner line rest _ (named.advance (by simp)).toShows stops
      refine ⟨name :: others, after, ?_, rfl, last⟩
      rw [fully_moreParameters, comma.accept?]
      simp only [named.identifier, othersRead, Outcome.ok_bind]
      rfl

theorem recovers_parameters (names : List String) :
    Recovers (fully parameters) 8
      ((nameWords names).map Word.kind ++ [.mark .rightParen]) (· = names) := by
  intro line rest cursor shows stops
  cases names with
  | nil =>
      have closing : cursor.Shows line (.mark .rightParen :: rest) := shows
      refine ⟨[], cursor.advance, ?_, rfl, closing.advance (by simp)⟩
      rw [fully_parameters, closing.accept?]
  | cons name names =>
      have named : cursor.Shows line (.ident name ::
          ((names.flatMap fun name => [Word.mark .comma, Word.ident name]).map
            Word.kind ++
            [.mark .rightParen] ++ rest)) :=
        shows.congr (by simp [nameWords])
      obtain ⟨others, after, othersRead, rfl, last⟩ :=
        recovers_moreParameters names line rest
          _ (named.advance (by simp)).toShows stops
      refine ⟨name :: others, after, ?_, rfl, last⟩
      rw [fully_parameters, named.accept?_other (by simp)]
      simp only [named.identifier, othersRead, Outcome.ok_bind]
      rfl

/-- The token behind the expressions of a block or of a program. -/
def closingOf (braced : Bool) : TokenKind :=
  if braced then .mark .rightBrace else .endOfInput

theorem grip?_closingOf (braced : Bool) : (closingOf braced).grip? = none := by
  cases braced <;> rfl

/-- One semicolon is skipped between two expressions, and none before what
closes them. -/
theorem shows_skipSemicolons {braced : Bool}
    (shows : cursor.Shows line
      ((furtherWords .semicolon expressions).map Word.kind ++
        closingOf braced :: rest)) :
    cursor.skipSemicolons.Shows line
      ((separatedWords .semicolon expressions).map Word.kind ++
        closingOf braced :: rest) := by
  cases expressions with
  | nil =>
      have closing : cursor.Shows line (closingOf braced :: rest) := shows
      rw [closing.skipSemicolons (by cases braced <;> simp [closingOf])]
      exact closing
  | cons next others =>
      have semicolon : cursor.Shows line (.mark .semicolon ::
          ((separatedWords .semicolon (next :: others)).map Word.kind ++
            closingOf braced :: rest)) :=
        shows.congr (by simp [furtherWords, separatedWords])
      have advanced := (semicolon.advance (by simp)).toShows
      have opens :
          Opens ((separatedWords .semicolon (next :: others)).map Word.kind ++
          closingOf braced :: rest) := by
        simp only [separatedWords, List.map_append, ← Expr.kindsIn_zero]
        exact (next.opens.append _).append _
      rw [semicolon.skipSemicolons_one, advanced.skipSemicolons_of_opens opens]
      exact advanced

/-- The expressions of a block or of a program are read back up to what closes
it. -/
theorem read_sequence
    (braced : Bool)
    (readable : ∀ expression ∈ expressions, Readable expression)
    (shows : cursor.Shows line
      ((separatedWords .semicolon expressions).map Word.kind ++
        closingOf braced :: rest)) :
    ∃ read after, fully (sequence · braced) cursor = .ok (read, after) ∧
      unplacedAll read = unplacedAll expressions ∧
      after.Shows line (closingOf braced :: rest) := by
  induction expressions generalizing cursor with
  | nil =>
      have closing : cursor.Shows line (closingOf braced :: rest) := shows
      refine ⟨[], cursor, ?_, rfl, closing⟩
      rw [fully_sequence, if_pos]
      cases braced with
      | true =>
          have brace : cursor.Shows line (.mark .rightBrace :: rest) := closing
          simp [Cursor.sees, brace.peek?]
      | false => simp [Cursor.Shows.peek?_end closing]
  | cons first others inner =>
      have begun : cursor.Shows line (first.kindsIn 0 ++
          ((furtherWords .semicolon others).map Word.kind ++
            closingOf braced :: rest)) :=
        shows.congr (by simp [separatedWords, Expr.kindsIn_zero])
      obtain ⟨read, afterFirst, firstRead, restores, continues⟩ :=
        (readable first List.mem_cons_self).read begun
          (stops_furtherWords rfl (grip?_closingOf braced))
      obtain ⟨readOthers, after, othersRead, meanOthers, last⟩ :=
        inner
          (fun other member => readable other (List.mem_cons_of_mem _ member))
          (shows_skipSemicolons continues.toShows)
      refine ⟨read :: readOthers, after, ?_, ?_, last⟩
      · have opens := first.opens.append
          ((furtherWords .semicolon others).map Word.kind ++
            closingOf braced :: rest)
        rw [fully_sequence, if_neg (begun.goesOn_of_opens opens braced)]
        simp only [firstRead, othersRead, Outcome.ok_bind]
        rfl
      · simp only [unplacedAll, meanOthers]
        rw [restores]

/-- A block is read back, whatever follows it. -/
theorem recovers_block {body : Block}
    (readable : ∀ expression ∈ body.expressions, Readable expression) :
    Recovers (fully block) 8 (body.words.map Word.kind) fun read =>
      read.unplaced = body.unplaced := by
  obtain ⟨expressions, position⟩ := body
  intro line rest cursor shows _
  have opening : cursor.Shows line (.mark .leftBrace ::
      ((separatedWords .semicolon expressions).map Word.kind ++
        closingOf true :: rest)) :=
    shows.congr (by simp [Block.words, closingOf])
  have inside := (opening.advance (by simp)).toShows
  have unskipped : cursor.advance.skipSemicolons = cursor.advance := by
    cases expressions with
    | nil => exact Cursor.Shows.skipSemicolons inside (by simp [closingOf])
    | cons first others =>
        refine inside.skipSemicolons_of_opens ?_
        simp only [separatedWords, List.map_append, ← Expr.kindsIn_zero]
        exact (first.opens.append _).append _
  obtain ⟨read, after, parsed, restores, closing⟩ :=
    read_sequence true readable inside
  refine ⟨⟨read, cursor.position⟩, after.advance, ?_, ?_,
    Cursor.Shows.advance closing (by simp [closingOf])⟩
  · rw [fully_block]
    simp only [opening.expect, Outcome.ok_bind, unskipped, parsed,
      Cursor.Shows.expect closing]
    rfl
  · simp only [Block.unplaced, restores]

/-- No expression goes on with a block. -/
theorem Block.stops_words (body : Block) {tightness : Nat} :
    Stops tightness (body.words.map Word.kind ++ rest) := by
  obtain ⟨expressions, position⟩ := body
  exact .of_grip?_eq_none rfl

/-- The clauses of an attempt are read back, if no further clause follows. -/
theorem read_clauses {clauses : List Clause}
    (readable : ∀ clause ∈ clauses, ∀ expression ∈ clause.body.expressions,
      Readable expression)
    (continues : cursor.Continues line
      ((clauseWords clauses).map Word.kind ++ rest))
    (stops : Stops 7 rest) :
    ∃ read after, fully Parser.clauses cursor = .ok (read, after) ∧
      unplacedClauses read = unplacedClauses clauses ∧
      after.Continues line rest := by
  induction clauses generalizing cursor with
  | nil =>
      have last : cursor.Continues line rest := continues
      have unseen : cursor.peek? ≠ some (.keyword .handle) := by
        intro peeked
        exact absurd (last.toShows.grip_lt stops peeked rfl) (by decide)
      refine ⟨[], cursor, ?_, rfl, last⟩
      rw [fully_clauses, if_neg unseen]
  | cons clause others inner =>
      obtain ⟨effect, parameter, body, position⟩ := clause
      have handle : cursor.Shows line
          (.keyword .handle :: .ident effect :: .mark .leftParen ::
          .ident parameter :: .mark .rightParen :: (body.words.map Word.kind ++
            ((clauseWords others).map Word.kind ++ rest))) :=
        continues.toShows.congr (by simp [clauseWords, parenthesised])
      have named := (handle.advance (by simp)).toShows
      have opening := (named.advance (by simp)).toShows
      have received := (opening.advance (by simp)).toShows
      have closing := (received.advance (by simp)).toShows
      obtain ⟨readBody, afterBody, bodyRead, restoresBody, behind⟩ :=
        recovers_block (readable _ List.mem_cons_self) line
          _ _ (closing.advance (by simp)).toShows (.of_all _)
      obtain ⟨readOthers, after, othersRead, meanOthers, last⟩ :=
        inner
          (fun other member => readable other (List.mem_cons_of_mem _ member))
            behind
      refine ⟨⟨effect, parameter, readBody, cursor.position⟩ :: readOthers,
        after, ?_, ?_, last⟩
      · rw [fully_clauses, if_pos (handle.peek? (by simp))]
        simp only [named.identifier, opening.expect, received.identifier,
          closing.expect, bodyRead, othersRead, Outcome.ok_bind]
        rfl
      · simp only [unplacedClauses, meanOthers]
        rw [show readBody.unplaced = body.unplaced from restoresBody]

end Lists

/-! ## Forms -/

section Forms

variable {position : Position}

theorem readable_ident (name : String) : Readable (.ident name position) := by
  refine .of_primary rfl ?_ trivial
  intro line rest cursor shows _
  have named : cursor.Shows line (.ident name :: rest) := shows
  exact ⟨.ident name cursor.position, cursor.advance,
    fully_primary_ident (named.peek? (by simp)), rfl, named.advance (by simp)⟩

theorem readable_literal (value : Literal) :
    Readable (.literal value position) := by
  refine .of_primary rfl ?_ trivial
  intro line rest cursor shows _
  have inside : value.token ≠ .endOfInput := by
    cases value with
    | bool value => cases value <;> simp [Literal.token]
    | _ => simp [Literal.token]
  have written : cursor.Shows line (value.token :: rest) :=
    shows.congr (by simp [Expr.kindsIn, Expr.words])
  exact ⟨.literal value cursor.position, cursor.advance,
    fully_primary_literal (written.peek? inside), rfl, written.advance inside⟩

theorem readable_assign {target value : Expr}
    (readTarget : Readable target)
    (readValue : Readable value) :
    Readable (.assign target value position) := by
  refine .intro ?_ (fun level same => ?_) (fun same => ?_) trivial
  · intro line rest cursor shows stops
    have begun : cursor.Shows line
        (target.kindsIn 1 ++ (.mark .assign :: (value.kindsIn 0 ++ rest))) :=
      shows.congr (by simp [Expr.kindsIn, Expr.words])
    obtain ⟨left, afterTarget, targetRead, restoresTarget, mark⟩ :=
      readTarget.readsAt 1 (by decide) line _ cursor begun
        (.of_grip?_eq_some rfl (by decide))
    obtain ⟨right, after, valueRead, restoresValue, last⟩ :=
      readValue.read (mark.advance (by simp)).toShows stops
    refine ⟨.assign left right left.position, after, ?_, ?_, last⟩
    · show fully expression cursor = _
      rw [fully_expression,
        show fully (binary · .equality) cursor = .ok (left, afterTarget)
          from targetRead]
      simp only [Outcome.ok_bind, mark.toShows.accept?, valueRead]
      rfl
    · simp only [Restores, Expr.unplaced]
      rw [restoresTarget, restoresValue]
  · cases level <;> cases same
  · cases same

theorem readable_binary {op : BinaryOp} {left right : Expr}
    (readLeft : Readable left)
    (readRight : Readable right) :
    Readable (.binary op left right position) := by
  have enters : EntersLoop op.level
      (Expr.kindsIn 0 (.binary op left right position))
      (.binary op left right position) := by
    intro line rest cursor shows stops
    have begun : cursor.Shows line (left.kindsIn op.level.rank ++
        (.mark op.mark :: (right.kindsIn (op.level.rank + 1) ++ rest))) :=
      shows.congr (by simp [Expr.kindsIn, Expr.words])
    obtain ⟨first, afterLeft, loops, restoresLeft, mark⟩ :=
      readLeft.entersLoop op.level line _ cursor begun
        (.of_grip?_eq_some op.grip?_mark (Nat.lt_succ_self _))
    have inside := op.level.rank_le
    obtain ⟨second, after, rightRead, restoresRight, last⟩ :=
      readRight.readsAt (op.level.rank + 1) (by omega) line rest
        _ (mark.advance (by simp)).toShows stops
    refine ⟨.binary op first second first.position, after, ?_, ?_, last⟩
    · have found : afterLeft.operator? op.level =
          some (op, afterLeft.advance) := by
        have read : op.level.operator? op.mark = some op :=
          Precedence.operator?_eq_some_iff.2 ⟨rfl, rfl⟩
        simp [Cursor.operator?, mark.toShows.peek?, read]
      rw [loops, fully_moreOperands, found]
      simp only [fully_operand_eq, rightRead, Outcome.ok_bind]
    · simp only [Restores, Expr.unplaced]
      rw [restoresLeft, restoresRight]
  refine .intro enters.readsAt (fun level same => ?_) (fun same => ?_) trivial
  · have level_eq : level = op.level := Precedence.rank_injective same
    exact level_eq ▸ enters
  · have inside := op.level.rank_le
    simp only [Expr.tightness] at same
    omega

theorem readable_unary {op : UnaryOp} {operand : Expr}
    (readOperand : Readable operand) :
    Readable (.unary op operand position) := by
  refine .intro ?_ (fun level same => ?_) (fun same => ?_) trivial
  · intro line rest cursor shows stops
    have begun : cursor.Shows line
        (.mark op.mark :: (operand.kindsIn 5 ++ rest)) :=
      shows.congr (by simp [Expr.kindsIn, Expr.words])
    obtain ⟨inner, after, innerRead, restores, last⟩ :=
      readOperand.readsAt 5 (by decide) line rest
        _ (begun.advance (by simp)).toShows stops
    refine ⟨.unary op inner cursor.position, after, ?_, ?_, last⟩
    · show fully unary cursor = _
      rw [fully_unary_mark (begun.peek? (by simp)),
        show fully unary cursor.advance = .ok (inner, after) from innerRead]
      rfl
    · simp only [Restores, Expr.unplaced]
      rw [restores]
  · cases level <;> cases same
  · cases same

theorem readable_call {callee : Expr}
    {arguments : List Expr}
    (readCallee : Readable callee)
    (readArguments : ∀ argument ∈ arguments, Readable argument) :
    Readable (.call callee arguments position) := by
  have enters : EntersCalls (Expr.kindsIn 0 (.call callee arguments position))
      (.call callee arguments position) := by
    intro line rest cursor shows stops
    have begun : cursor.Shows line (callee.kindsIn 6 ++ (.mark .leftParen ::
        ((separatedWords .comma arguments).map Word.kind ++
          [.mark .rightParen] ++ rest))) :=
      shows.congr (by simp [Expr.kindsIn, Expr.words, parenthesised])
    obtain ⟨called, afterCallee, loops, restores, paren⟩ :=
      readCallee.entersCalls line _ cursor begun
        (.of_grip?_eq_some rfl (by decide))
    obtain ⟨read, after, argumentsRead, meanArguments, last⟩ :=
      recovers_arguments readArguments line rest
        _ (paren.advance (by simp)).toShows (.of_all rest)
    refine ⟨.call called read called.position, after, ?_, ?_, last⟩
    · rw [loops, fully_moreCalls, if_pos paren.seesCall]
      simp only [argumentsRead, Outcome.ok_bind]
    · simp only [Restores, Expr.unplaced]
      rw [restores, meanArguments]
  refine .intro enters.readsAt (fun level same => ?_) (fun _ => enters) trivial
  cases level <;> cases same

theorem readable_block {body : Block}
    (readBody : ∀ expression ∈ body.expressions, Readable expression) :
    Readable (.block body) := by
  have recovers := recovers_block readBody
  refine .of_primary rfl ?_ recovers
  intro line rest cursor shows _
  have written : cursor.Shows line (body.words.map Word.kind ++ rest) :=
    shows.congr (by simp [Expr.kindsIn, Expr.words])
  obtain ⟨read, after, parsed, restores, last⟩ :=
    recovers line rest cursor written (.of_all rest)
  refine ⟨.block read, after, ?_, ?_, last⟩
  · have brace : cursor.peek? = some (.mark .leftBrace) := by
      obtain ⟨expressions, place⟩ := body
      exact Cursor.Shows.peek? written (by simp)
    show fully primary cursor = _
    rw [fully_primary_block brace, parsed]
    rfl
  · simp only [Restores, Expr.unplaced]
    rw [restores]

theorem readable_loop {condition : Expr} {body : Block}
    (readCondition : Readable condition)
    (readBody : ∀ expression ∈ body.expressions, Readable expression) :
    Readable (.loop condition body position) := by
  refine .of_primary rfl ?_ trivial
  intro line rest cursor shows _
  have begun : cursor.Shows line
      (.keyword .loop ::
        (condition.kindsIn 0 ++ (body.words.map Word.kind ++ rest))) :=
    shows.congr (by simp [Expr.kindsIn, Expr.words])
  obtain ⟨test, afterTest, testRead, restoresTest, brace⟩ :=
    readCondition.read (begun.advance (by simp)).toShows body.stops_words
  obtain ⟨repeated, after, bodyRead, restoresBody, last⟩ :=
    recovers_block readBody line rest afterTest brace.toShows (.of_all rest)
  refine ⟨.loop test repeated cursor.position, after, ?_, ?_, last⟩
  · show fully primary cursor = _
    rw [fully_primary_loop (begun.peek? (by simp))]
    simp only [testRead, bodyRead, Outcome.ok_bind]
    rfl
  · simp only [Restores, Expr.unplaced]
    rw [restoresTest, restoresBody]

theorem readable_define {name : String}
    {parameters : List String} {body : Block}
    (readBody : ∀ expression ∈ body.expressions, Readable expression) :
    Readable (.define name parameters body position) := by
  refine .of_primary rfl ?_ trivial
  intro line rest cursor shows _
  have begun : cursor.Shows line
      (.keyword .define :: .ident name :: .mark .leftParen ::
      ((nameWords parameters).map Word.kind ++ [.mark .rightParen] ++
        (body.words.map Word.kind ++ rest))) :=
    shows.congr (by simp [Expr.kindsIn, Expr.words, parenthesised])
  have named := (begun.advance (by simp)).toShows
  have opening := (named.advance (by simp)).toShows
  obtain ⟨names, afterNames, namesRead, rfl, brace⟩ :=
    recovers_parameters parameters line
      _ _ (opening.advance (by simp)).toShows (.of_all _)
  obtain ⟨read, after, bodyRead, restoresBody, last⟩ :=
    recovers_block readBody line rest afterNames brace.toShows (.of_all rest)
  refine ⟨.define name names read cursor.position, after, ?_, ?_, last⟩
  · show fully primary cursor = _
    rw [fully_primary_define (begun.peek? (by simp))]
    simp only [named.identifier, opening.expect, namesRead, bodyRead,
      Outcome.ok_bind]
    rfl
  · simp only [Restores, Expr.unplaced]
    rw [restoresBody]

theorem readable_attempt {body : Block}
    {clauses : List Clause}
    (readBody : ∀ expression ∈ body.expressions, Readable expression)
    (readClauses : ∀ clause ∈ clauses, ∀ expression ∈ clause.body.expressions,
      Readable expression)
    (some : clauses ≠ []) :
    Readable (.attempt body clauses position) := by
  refine .of_primary rfl ?_ trivial
  intro line rest cursor shows stops
  have begun : cursor.Shows line
      (.keyword .attempt :: (body.words.map Word.kind ++
      ((clauseWords clauses).map Word.kind ++ rest))) :=
    shows.congr (by simp [Expr.kindsIn, Expr.words])
  obtain ⟨read, afterBody, bodyRead, restoresBody, behind⟩ :=
    recovers_block readBody line
      _ _ (begun.advance (by simp)).toShows (.of_all _)
  obtain ⟨readers, after, clausesRead, meanClauses, last⟩ :=
    read_clauses readClauses behind stops
  have nonempty : readers.isEmpty = false := by
    cases readers with
    | cons => rfl
    | nil =>
        cases clauses with
        | nil => exact absurd rfl some
        | cons clause others =>
            obtain ⟨_, _, _, _⟩ := clause
            cases meanClauses
  refine ⟨.attempt read readers cursor.position, after, ?_, ?_, last⟩
  · show fully primary cursor = _
    rw [fully_primary_attempt (begun.peek? (by simp))]
    simp only [bodyRead, clausesRead, nonempty, Outcome.ok_bind]
    rfl
  · simp only [Restores, Expr.unplaced, meanClauses]
    rw [restoresBody]

theorem readable_perform {effect : String}
    {payload : Option Expr}
    (readPayload : ∀ expression ∈ payload, Readable expression) :
    Readable (.perform effect payload position) := by
  refine .of_primary rfl ?_ trivial
  intro line rest cursor shows _
  have begun : cursor.Shows line
      (.keyword .perform :: .ident effect :: .mark .leftParen ::
      ((payloadWords payload).map Word.kind ++ .mark .rightParen :: rest)) :=
    shows.congr (by simp [Expr.kindsIn, Expr.words, parenthesised])
  have named := (begun.advance (by simp)).toShows
  have opening := named.advance (by simp)
  have inside := (opening.advance (by simp)).toShows
  cases payload with
  | none =>
      have closing : cursor.advance.advance.advance.Shows line
          (.mark .rightParen :: rest) := inside
      refine ⟨.perform effect none cursor.position, _, ?_, rfl,
        closing.advance (by simp)⟩
      show fully primary cursor = _
      rw [fully_primary_perform (begun.peek? (by simp))]
      simp only [named.identifier, Outcome.ok_bind, opening.seesCall,
        closing.accept?, if_true]
      rfl
  | some expression =>
      have written : cursor.advance.advance.advance.Shows line
          (expression.kindsIn 0 ++ .mark .rightParen :: rest) :=
        inside.congr (by simp [payloadWords, Expr.kindsIn_zero])
      obtain ⟨read, afterPayload, payloadRead, restores, closing⟩ :=
        (readPayload expression rfl).read written (.of_grip?_eq_none rfl)
      refine ⟨.perform effect (some read) cursor.position, _, ?_, ?_,
        closing.advance (by simp)⟩
      · show fully primary cursor = _
        rw [fully_primary_perform (begun.peek? (by simp))]
        have unclosed := written.accept?_of_opens (expression.opens.append _)
          (show (TokenKind.mark .rightParen).isOpening = false from rfl)
        simp only [named.identifier, Outcome.ok_bind, opening.seesCall,
          unclosed, if_true, payloadRead, closing.toShows.expect]
        rfl
      · simp only [Restores, Expr.unplaced, unplacedOptional]
        rw [restores]

/-- What stands behind `else` is read back as a choice if it begins with `if`,
and as a block if not. -/
theorem read_alternative {expression : Expr} {line : Nat}
    {rest : List TokenKind} {cursor : Cursor}
    (possible : expression.isAlternative)
    (reads : ReadsAlternative expression)
    (shows : cursor.Shows line (expression.kindsIn 0 ++ rest))
    (stops : Stops 7 rest) :
    ∃ read after, Restores expression read ∧ after.Continues line rest ∧
      ((cursor.peek? = some (.keyword .branch) ∧
        fully branch cursor = .ok (read, after)) ∨
        (cursor.peek? ≠ some (.keyword .branch) ∧
          ∃ body, read = .block body ∧
            fully block cursor = .ok (body, after))) := by
  cases expression with
  | branch =>
      have keyword : cursor.peek? = some (.keyword .branch) :=
        Cursor.Shows.peek? shows (by simp)
      obtain ⟨read, after, parsed, restores, last⟩ :=
        reads line rest cursor shows stops
      exact ⟨read, after, restores, last, .inl ⟨keyword, parsed⟩⟩
  | block body =>
      obtain ⟨expressions, position⟩ := body
      have brace : cursor.peek? = some (.mark .leftBrace) :=
        Cursor.Shows.peek? shows (by simp)
      obtain ⟨read, after, parsed, restores, last⟩ :=
        reads line rest cursor shows (.of_all rest)
      refine ⟨.block read, after, ?_, last,
        .inr ⟨by simp [brace], read, rfl, parsed⟩⟩
      exact congrArg Expr.block restores
  | _ => cases possible

theorem readable_branch {condition : Expr}
    {consequence : Block} {alternative : Option Expr}
    (readCondition : Readable condition)
    (readConsequence : ∀ expression ∈ consequence.expressions,
      Readable expression)
    (readAlternative : ∀ expression ∈ alternative, expression.isAlternative ∧
      Readable expression) :
    Readable (.branch condition consequence alternative position) := by
  have recovers : Recovers (fully branch) 7
      (Expr.kindsIn 0 (.branch condition consequence alternative position))
      (Restores (.branch condition consequence alternative position)) := by
    intro line rest cursor shows stops
    have begun : cursor.Shows line (.keyword .branch :: (condition.kindsIn 0 ++
        (consequence.words.map Word.kind ++
          ((alternativeWords alternative).map Word.kind ++ rest)))) :=
      shows.congr (by simp [Expr.kindsIn, Expr.words])
    obtain ⟨test, afterTest, testRead, restoresTest, brace⟩ :=
      readCondition.read (begun.advance (by simp)).toShows
        consequence.stops_words
    obtain ⟨chosen, afterChosen, chosenRead, restoresChosen, behind⟩ :=
      recovers_block readConsequence line _ afterTest brace.toShows (.of_all _)
    have unfolded := fully_branch (begun.peek? (by simp))
    simp only [testRead, chosenRead, Outcome.ok_bind] at unfolded
    cases alternative with
    | none =>
        have last : afterChosen.Continues line rest := behind
        have unseen : afterChosen.peek? ≠ some (.keyword .otherwise) := by
          intro peeked
          exact absurd (last.toShows.grip_lt stops peeked rfl) (by decide)
        rw [if_neg unseen] at unfolded
        refine ⟨.branch test chosen none cursor.position, afterChosen,
          unfolded, ?_, last⟩
        simp only [Restores, Expr.unplaced, unplacedOptional]
        rw [restoresTest, restoresChosen]
    | some expression =>
        have otherwise : afterChosen.Shows line
            (.keyword .otherwise :: (expression.kindsIn 0 ++ rest)) :=
          behind.toShows.congr (by simp [alternativeWords, Expr.kindsIn_zero])
        obtain ⟨possible, readable⟩ := readAlternative expression rfl
        obtain ⟨read, after, restores, last, parsed⟩ :=
          read_alternative possible readable.alternative
          (otherwise.advance (by simp)).toShows stops
        refine ⟨.branch test chosen (some read) cursor.position, after,
          ?_, ?_, last⟩
        · rw [unfolded, if_pos (otherwise.peek? (by simp))]
          rcases parsed with ⟨keyword, branchRead⟩ | ⟨other, body,
            rfl, blockRead⟩
          · rw [if_pos keyword, branchRead]
            rfl
          · rw [if_neg other, blockRead]
            rfl
        · simp only [Restores, Expr.unplaced, unplacedOptional]
          rw [restoresTest, restoresChosen, restores]
  refine .of_primary rfl ?_ recovers
  intro line rest cursor shows stops
  obtain ⟨read, after, parsed, restores, last⟩ :=
    recovers line rest cursor shows stops
  refine ⟨read, after, ?_, restores, last⟩
  exact (fully_primary_branch (Cursor.Shows.peek? shows (by simp))).trans parsed

end Forms

/-! ## All programs -/

mutual

/-- Every writable expression is read back wherever it can stand. -/
theorem Expr.readable :
    (expression : Expr) → expression.isWritable → Readable expression
  | .ident name _, _ => readable_ident name
  | .literal value _, _ => readable_literal value
  | .binary _ left right _, writable => by
      simp only [Expr.isWritable, Bool.and_eq_true] at writable
      exact readable_binary (left.readable writable.1)
        (right.readable writable.2)
  | .unary _ operand _, writable => readable_unary (operand.readable writable)
  | .call callee arguments _, writable => by
      simp only [Expr.isWritable, Bool.and_eq_true] at writable
      exact readable_call (callee.readable writable.1)
        (allReadable arguments writable.2)
  | .assign target value _, writable => by
      simp only [Expr.isWritable, Bool.and_eq_true] at writable
      exact readable_assign (target.readable writable.1)
        (value.readable writable.2)
  | .define _ _ body _, writable => readable_define (body.readable writable)
  | .block body, writable => readable_block (body.readable writable)
  | .branch condition consequence alternative _, writable => by
      simp only [Expr.isWritable, Bool.and_eq_true] at writable
      exact readable_branch (condition.readable writable.1.1)
        (consequence.readable writable.1.2)
        (alternativeReadable alternative writable.2)
  | .loop condition body _, writable => by
      simp only [Expr.isWritable, Bool.and_eq_true] at writable
      exact readable_loop (condition.readable writable.1)
        (body.readable writable.2)
  | .attempt body clauses _, writable => by
      simp only [Expr.isWritable, Bool.and_eq_true] at writable
      refine readable_attempt (body.readable writable.1.1)
        (clausesReadable clauses writable.2) ?_
      rintro rfl
      exact absurd writable.1.2 (by decide)
  | .perform _ payload _, writable =>
      readable_perform (optionalReadable payload writable)

theorem Block.readable : (body : Block) → body.isWritable →
    ∀ expression ∈ body.expressions, Readable expression
  | ⟨expressions, _⟩, writable => allReadable expressions writable

theorem allReadable : (expressions : List Expr) → areWritable expressions →
    ∀ expression ∈ expressions, Readable expression
  | [], _ => by simp
  | first :: others, writable => by
      simp only [areWritable, Bool.and_eq_true] at writable
      intro expression member
      rcases List.mem_cons.1 member with same | later
      · exact same ▸ first.readable writable.1
      · exact allReadable others writable.2 expression later

theorem optionalReadable :
    (optional : Option Expr) → isWritableOptional optional →
      ∀ expression ∈ optional, Readable expression
  | none, _ => by simp
  | some payload, writable => by
      rintro _ ⟨⟩
      exact payload.readable writable

theorem alternativeReadable :
    (alternative : Option Expr) → isWritableAlternative alternative →
      ∀ expression ∈ alternative, expression.isAlternative ∧ Readable expression
  | none, _ => by simp
  | some alternative, writable => by
      simp only [isWritableAlternative, Bool.and_eq_true] at writable
      rintro _ ⟨⟩
      exact ⟨writable.1, alternative.readable writable.2⟩

theorem clausesReadable : (clauses : List Clause) → areWritableClauses clauses →
    ∀ clause ∈ clauses, ∀ expression ∈ clause.body.expressions,
      Readable expression
  | [], _ => by simp
  | ⟨effect, parameter, body, position⟩ :: others, writable => by
      simp only [areWritableClauses, Bool.and_eq_true] at writable
      intro clause member
      rcases List.mem_cons.1 member with rfl | later
      · exact body.readable writable.1
      · exact clausesReadable others writable.2 clause later

end

/-- The parser implements the table of precedence and loses no program. Written
canonically on one line and closed by the end of the input, every writable
program is read back, up to places. -/
theorem parse_rendering
    (program : Block)
    (writable : program.isWritable)
    (line : Nat) (tokens : List Token)
    (written : tokens.map Token.kind = program.rendering ++ [.endOfInput])
    (onLine : ∀ token ∈ tokens, token.position.line = line) :
    ∃ parsed, Block.parse tokens = .ok parsed ∧
      parsed.unplaced = program.unplaced := by
  have shows : Cursor.Shows line
      ((separatedWords .semicolon program.expressions).map Word.kind ++
        [closingOf false])
      ⟨tokens, Position.start⟩ := ⟨written, onLine⟩
  obtain ⟨read, after, parsed, restores, _⟩ :=
    read_sequence false (program.readable writable) shows
  refine ⟨⟨read, Cursor.position ⟨tokens, Position.start⟩⟩, ?_, ?_⟩
  · have sequenceRead :
        sequence (depthFor tokens.length) false ⟨tokens, Position.start⟩ =
        .ok (read, after) := parsed
    exact Block.parse_eq_ok.2 ⟨read, after, sequenceRead, rfl⟩
  · obtain ⟨expressions, position⟩ := program
    simp only [Block.unplaced, restores]

/-- A program that needs some parentheses: `-(a + b) * f(x)(y) - (c - 2); if x =
y { } else { do e() }`. -/
def groupedProgram : Block :=
  let name := fun text => Expr.ident text .start
  ⟨[.binary .sub
      (.binary .mul
        (.unary .neg (.binary .add (name "a") (name "b") .start) .start)
        (.call (.call (name "f") [name "x"] .start) [name "y"] .start) .start)
      (.binary .sub (name "c") (.literal (.int 2) .start) .start) .start,
    .branch (.assign (name "x") (name "y") .start) ⟨[], .start⟩
      (some (.block ⟨[.perform "e" none .start], .start⟩)) .start], .start⟩

/-- The canonical writing of the program. -/
def groupedKinds : List TokenKind :=
  [.mark .minus, .mark .leftParen, .ident "a", .mark .plus, .ident "b",
    .mark .rightParen, .mark .star, .ident "f", .mark .leftParen, .ident "x",
    .mark .rightParen, .mark .leftParen, .ident "y", .mark .rightParen,
    .mark .minus, .mark .leftParen, .ident "c", .mark .minus, .int 2,
    .mark .rightParen, .mark .semicolon, .keyword .branch, .ident "x",
    .mark .assign, .ident "y", .mark .leftBrace, .mark .rightBrace,
    .keyword .otherwise, .mark .leftBrace, .keyword .perform, .ident "e",
    .mark .leftParen, .mark .rightParen, .mark .rightBrace]

/-- The canonical writing on the third line of a text. -/
def groupedTokens : List Token :=
  (groupedKinds ++ [TokenKind.endOfInput]).map fun kind => ⟨kind, ⟨3, 5⟩⟩

theorem parse_rendering_groupedProgram :
    groupedProgram.rendering = groupedKinds ∧
      ∃ parsed, Block.parse groupedTokens = .ok parsed ∧
        parsed.unplaced = groupedProgram.unplaced :=
  ⟨rfl, parse_rendering groupedProgram rfl 3 groupedTokens rfl (by decide)⟩

end EffectScript
