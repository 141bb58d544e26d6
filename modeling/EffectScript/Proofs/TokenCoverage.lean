import EffectScript.Proofs.Outcome
import EffectScript.Proofs.PlainParser
import EffectScript.Proofs.Rendering
import Mathlib.Data.List.Forall2

/-!
# The parser keeps every token

What a parser function reads is a stretch of tokens before the end of the input.
Grouping parentheses and semicolons aside, these tokens are the words of the
result, one by one and in order; and whatever begins with a word has the place
of its token. The statement is proved for one function of the parser after the
other, by induction on the bound of the recursion.
-/

namespace EffectScript

/-! ## Essential words -/

namespace Word

@[simp]
theorem kind_mark (sign : Mark) : (mark sign).kind = .mark sign := rfl

@[simp]
theorem kind_keyword (word : Keyword) :
    (keyword word).kind = .keyword word := rfl

@[simp]
theorem kind_ident (name : String) : (ident name).kind = .ident name := rfl

@[simp]
theorem begins_mark (sign : Mark) : (mark sign).begins = [] := rfl

@[simp]
theorem begins_keyword (word : Keyword) : (keyword word).begins = [] := rfl

end Word

@[simp]
theorem TokenKind.isEssential_keyword (word : Keyword) :
    (TokenKind.keyword word).isEssential = true := rfl

@[simp]
theorem TokenKind.isEssential_ident (name : String) :
    (TokenKind.ident name).isEssential = true := rfl

@[simp]
theorem BinaryOp.isEssential_mark (op : BinaryOp) :
    (TokenKind.mark op.mark).isEssential = true := by
  cases op <;> rfl

@[simp]
theorem UnaryOp.isEssential_mark (op : UnaryOp) :
    (TokenKind.mark op.mark).isEssential = true := by
  cases op <;> rfl

@[simp]
theorem Literal.isEssential_token (value : Literal) :
    value.token.isEssential = true := by
  cases value with
  | bool value => cases value <;> rfl
  | _ => rfl

/-- The words that do more than group or separate. -/
def essential (words : List Word) : List Word :=
  words.filter fun word => word.kind.isEssential

@[simp]
theorem essential_nil : essential [] = [] := rfl

@[simp]
theorem essential_append (first second : List Word) :
    essential (first ++ second) = essential first ++ essential second :=
  List.filter_append first second

@[simp]
theorem essential_cons (word : Word) (words : List Word) :
    essential (word :: words) =
      if word.kind.isEssential then word :: essential words else
        essential words := List.filter_cons

theorem essential_beginningAt (position : Position) (words : List Word) :
    essential (beginningAt position words) =
      beginningAt position (essential words) := by
  induction words with
  | nil => rfl
  | cons word words inner =>
      by_cases counts : word.kind.isEssential
      · simp [beginningAt, counts]
      · simpa [beginningAt, counts] using inner

@[simp]
theorem essential_parenthesised (words : List Word) :
    essential (parenthesised words) = essential words := by
  simp [parenthesised, TokenKind.isEssential]

@[simp]
theorem essential_inContext
    (context : Nat) (expression : Expr) (words : List Word) :
    essential (expression.inContext context words) = essential words := by
  unfold Expr.inContext
  split
  · exact essential_parenthesised words
  · rfl

/-- A semicolon before an expression does not count. -/
theorem essential_furtherWords (expressions : List Expr) :
    essential (furtherWords .semicolon expressions) =
      essential (separatedWords .semicolon expressions) := by
  cases expressions with
  | nil => rfl
  | cons first others =>
      simp [furtherWords, separatedWords, TokenKind.isEssential]

/-- Something at the given place begins with the first essential word. -/
def Begins (position : Position) (words : List Word) : Prop :=
  ∃ word later, essential words = word :: later ∧ position ∈ word.begins

namespace Begins

variable {position other : Position} {words : List Word}

theorem append (begins : Begins position words) (more : List Word) :
    Begins position (words ++ more) := by
  obtain ⟨word, later, first, starts⟩ := begins
  exact ⟨word, later ++ essential more, by
    rw [essential_append, first]; rfl, starts⟩

theorem inContext
    (begins : Begins position words)
    (context : Nat) (expression : Expr) :
    Begins position (expression.inContext context words) := by
  unfold Begins
  rw [essential_inContext]
  exact begins

theorem essential_ne_nil (begins : Begins position words) :
    essential words ≠ [] := by
  obtain ⟨word, later, first, _⟩ := begins
  rw [first]
  exact List.cons_ne_nil word later

theorem beginningAt (some : essential words ≠ []) :
    Begins position (beginningAt position words) := by
  unfold Begins
  rw [essential_beginningAt]
  obtain ⟨word, later, first⟩ := List.exists_cons_of_ne_nil some
  have counts : word.kind.isEssential := by
    have member : word ∈ essential words := first ▸ List.mem_cons_self
    exact (List.mem_filter.1 member).2
  exact ⟨⟨word.kind, position :: word.begins⟩, later, by
    simp [first, EffectScript.beginningAt, counts],
    List.mem_cons_self⟩

end Begins

/-- Every expression begins at its place. -/
theorem Expr.begins :
    (expression : Expr) → Begins expression.position expression.words
  | .ident _ _ => .beginningAt (List.cons_ne_nil _ _)
  | .literal value _ => .beginningAt (by simp)
  | .binary _ left _ _ =>
      .beginningAt ((left.begins.inContext _ left).append _).essential_ne_nil
  | .unary op _ _ => .beginningAt (by simp)
  | .call callee _ _ =>
      .beginningAt
        ((callee.begins.inContext _ callee).append _).essential_ne_nil
  | .assign target _ _ =>
      .beginningAt
        ((target.begins.inContext _ target).append _).essential_ne_nil
  | .define .. => .beginningAt (List.cons_ne_nil _ _)
  | .block ⟨_, _⟩ => .beginningAt (List.cons_ne_nil _ _)
  | .branch .. => .beginningAt (List.cons_ne_nil _ _)
  | .loop .. => .beginningAt (List.cons_ne_nil _ _)
  | .attempt .. => .beginningAt (List.cons_ne_nil _ _)
  | .perform .. => .beginningAt (List.cons_ne_nil _ _)

/-! ## Tokens that write words -/

/-- The token is what the word says, and whatever begins with the word has the
place of the token. -/
structure Word.WrittenBy (word : Word) (token : Token) : Prop where
  kind : word.kind = token.kind
  begins : ∀ position ∈ word.begins, position = token.position

/-- The tokens that do more than group or separate. -/
def essentialTokens (tokens : List Token) : List Token :=
  tokens.filter fun token => token.kind.isEssential

@[simp]
theorem essentialTokens_append (first second : List Token) :
    essentialTokens (first ++ second) = essentialTokens first ++
      essentialTokens second :=
  List.filter_append first second

theorem kinds_of_written {words : List Word}
    {tokens : List Token}
    (written : List.Forall₂ Word.WrittenBy words tokens) :
    tokens.map Token.kind = words.map Word.kind := by
  induction written with
  | nil => rfl
  | cons first _ inner => rw [List.map_cons, List.map_cons, first.kind, inner]

/-- The cursor reads tokens that write the given words, and then stands before
the rest of the tokens. -/
def Cursor.Reads (cursor : Cursor) (words : List Word) (after : Cursor) :
    Prop :=
  ∃ used, cursor.rest = used ++ after.rest ∧
    (∀ token ∈ used, token.kind ≠ .endOfInput) ∧
    List.Forall₂ Word.WrittenBy (essential words) (essentialTokens used)

namespace Cursor.Reads

variable {cursor middle after : Cursor} {words more : List Word}

theorem refl (cursor : Cursor) : cursor.Reads [] cursor :=
  ⟨[], rfl, by simp, .nil⟩

theorem trans
    (first : cursor.Reads words middle)
    (second : middle.Reads more after) :
    cursor.Reads (words ++ more) after := by
  obtain ⟨used, used_eq, usedBefore, usedWrites⟩ := first
  obtain ⟨further, further_eq, furtherBefore, furtherWrites⟩ := second
  refine ⟨used ++ further, by
    rw [used_eq, further_eq, List.append_assoc], ?_, ?_⟩
  · intro token member
    exact (List.mem_append.1 member).elim (usedBefore token)
      (furtherBefore token)
  · rw [essential_append, essentialTokens_append]
    exact List.rel_append usedWrites furtherWrites

/-- Only essential words count. -/
theorem congr
    (reads : cursor.Reads words after)
    (same : essential more = essential words) :
    cursor.Reads more after := by
  unfold Cursor.Reads
  rw [same]
  exact reads

/-- What begins with the first word anyway may be said to begin there. -/
theorem beginningAt {position : Position}
    (reads : cursor.Reads words after)
    (begins : Begins position words) :
    cursor.Reads (beginningAt position words) after := by
  obtain ⟨used, used_eq, usedBefore, usedWrites⟩ := reads
  obtain ⟨word, later, first, starts⟩ := begins
  refine ⟨used, used_eq, usedBefore, ?_⟩
  have counts : word.kind.isEssential := by
    have member : word ∈ essential words := first ▸ List.mem_cons_self
    exact (List.mem_filter.1 member).2
  rw [essential_beginningAt, first]
  rw [first] at usedWrites
  simp only [EffectScript.beginningAt, counts, if_true]
  generalize essentialTokens used = tokens at usedWrites ⊢
  cases usedWrites with
  | cons written others =>
      refine .cons ⟨written.kind, ?_⟩ others
      intro place member
      rcases List.mem_cons.1 member with rfl | earlier
      · exact written.begins _ starts
      · exact written.begins _ earlier

/-- A cursor does not read backward. -/
theorem length_le (reads : cursor.Reads words after) :
    after.rest.length ≤ cursor.rest.length := by
  obtain ⟨used, used_eq, _⟩ := reads
  rw [used_eq, List.length_append]
  exact Nat.le_add_left _ _

/-- A cursor that reads essential words moves. -/
theorem length_lt
    (reads : cursor.Reads words after)
    (some : essential words ≠ []) :
    after.rest.length < cursor.rest.length := by
  obtain ⟨used, used_eq, _, usedWrites⟩ := reads
  have nonempty : used ≠ [] := by
    rintro rfl
    exact some (List.forall₂_nil_right_iff.1 usedWrites)
  rw [used_eq, List.length_append]
  exact Nat.lt_add_of_pos_left (List.length_pos_of_ne_nil nonempty)

end Cursor.Reads

/-! ## Cursors -/

namespace Cursor

variable {cursor after : Cursor} {kind : TokenKind} {mark : Mark}

/-- A cursor that sees a token stands before it. -/
theorem rest_eq_of_peek? (peeked : cursor.peek? = some kind) :
    ∃ token, cursor.rest = token :: cursor.advance.rest ∧ token.kind = kind ∧
      token.kind ≠ .endOfInput ∧ cursor.advance.previous = token.position := by
  obtain ⟨rest, previous⟩ := cursor
  cases rest with
  | nil => cases peeked
  | cons token rest =>
      simp only [Cursor.peek?] at peeked
      split at peeked
      · cases peeked
      next inside =>
        cases peeked
        exact ⟨token, by simp [advance, inside], rfl, inside, by
          simp [advance, inside]⟩

theorem peek?_of_accept? (accepted : cursor.accept? mark = some after) :
    cursor.peek? = some (.mark mark) ∧ after = cursor.advance := by
  unfold accept? at accepted
  split at accepted
  next seen =>
    cases accepted
    exact ⟨of_decide_eq_true seen, rfl⟩
  next => cases accepted

theorem peek?_of_expect (expected : cursor.expect mark = .ok after) :
    cursor.peek? = some (.mark mark) ∧ after = cursor.advance := by
  unfold expect at expected
  split at expected
  next seen =>
    cases expected
    exact ⟨of_decide_eq_true seen, rfl⟩
  next => cases expected

theorem peek?_of_operator? {level : Precedence}
    {op : BinaryOp}
    (found : cursor.operator? level = some (op, after)) :
    cursor.peek? = some (.mark op.mark) ∧ after = cursor.advance := by
  unfold operator? at found
  split at found
  next mark peeked =>
    obtain ⟨operator, read, result⟩ := Option.map_eq_some_iff.1 found
    cases result
    obtain ⟨_, rfl⟩ := Precedence.operator?_eq_some_iff.1 read
    exact ⟨peeked, rfl⟩
  next => cases found

/-- Reading one token, with anything that begins at its place. -/
theorem reads_advance
    (peeked : cursor.peek? = some kind)
    {begins : List Position}
    (here : ∀ position ∈ begins, position = cursor.position) :
    cursor.Reads [⟨kind, begins⟩] cursor.advance := by
  obtain ⟨token, rest_eq, rfl, inside, _⟩ := rest_eq_of_peek? peeked
  have place : cursor.position = token.position := by simp [position, rest_eq]
  refine ⟨[token], rest_eq, by simpa using inside, ?_⟩
  by_cases counts : token.kind.isEssential
  · simp only [essential, essentialTokens, List.filter_cons, counts, if_true,
      List.filter_nil]
    exact .cons ⟨rfl, place ▸ here⟩ .nil
  · simp only [essential, essentialTokens, List.filter_cons, counts,
      List.filter_nil]
    exact .nil

theorem reads_word (peeked : cursor.peek? = some kind) :
    cursor.Reads [⟨kind, []⟩] cursor.advance :=
  reads_advance peeked (by simp)

theorem reads_mark (seen : cursor.peek? = some (.mark mark)) :
    cursor.Reads [.mark mark] cursor.advance :=
  reads_word seen

theorem reads_beginning (peeked : cursor.peek? = some kind) :
    cursor.Reads [⟨kind, [cursor.position]⟩] cursor.advance :=
  reads_advance peeked (by simp)

theorem reads_of_accept? (accepted : cursor.accept? mark = some after) :
    cursor.Reads [.mark mark] after := by
  obtain ⟨seen, rfl⟩ := peek?_of_accept? accepted
  exact reads_word seen

theorem reads_of_operator? {level : Precedence}
    {op : BinaryOp}
    (found : cursor.operator? level = some (op, after)) :
    cursor.Reads [.mark op.mark] after := by
  obtain ⟨seen, rfl⟩ := peek?_of_operator? found
  exact reads_word seen

theorem reads_of_seesCall (seen : cursor.seesCall) :
    cursor.Reads [.mark .leftParen] cursor.advance := by
  simp only [seesCall, Bool.and_eq_true] at seen
  exact reads_word (of_decide_eq_true seen.1)

/-- Semicolons are no words. -/
theorem reads_skipSemicolons (cursor : Cursor) :
    cursor.Reads [] cursor.skipSemicolons := by
  obtain ⟨rest, previous⟩ := cursor
  induction rest generalizing previous with
  | nil => exact .refl _
  | cons token rest inner =>
      simp only [skipSemicolons, skipSemicolonsFrom]
      split
      next semicolon =>
        have peeked : (⟨token :: rest, previous⟩ : Cursor).peek? =
            some (.mark .semicolon) := by
          simp [peek?, semicolon]
        have advanced : (⟨token :: rest, previous⟩ : Cursor).advance =
            ⟨rest, token.position⟩ := by
          simp [advance, semicolon]
        have skipped : (⟨token :: rest, previous⟩ : Cursor).advance.Reads []
            (skipSemicolonsFrom token.position rest) := by
          rw [advanced]
          exact inner token.position
        exact ((reads_word peeked).trans skipped).congr rfl
      next => exact .refl _

end Cursor

/-! ## Parser functions -/

namespace Parser

variable {α β : Type} {start cursor : Cursor} {words : α → List Word}
    {further : β → List Word}

/-- From the given start on, the tokens up to where the parser stops write the
words of its result. -/
def Spends
    (start : Cursor) (words : α → List Word)
    (parsed : Except SourceError (α × Cursor)) : Prop :=
  ∀ result after, parsed = .ok (result, after) →
    start.Reads (words result) after

namespace Spends

theorem ok {result : α} {after : Cursor}
    (reads : start.Reads (words result) after) :
    Spends start words (.ok (result, after)) := by
  rintro _ _ ⟨⟩
  exact reads

theorem error {error : SourceError} : Spends start words (.error error) := by
  rintro _ _ ⟨⟩

theorem bind {first : Except SourceError (α × Cursor)}
    {rest : α × Cursor → Except SourceError (β × Cursor)}
    (early : Spends cursor words first)
    (late : ∀ result after, cursor.Reads (words result) after →
      Spends start further (rest (result, after))) :
    Spends start further (first >>= rest) := by
  intro result after parsed
  obtain ⟨⟨value, next⟩, firstParsed, restParsed⟩ := Outcome.bind_eq_ok.1 parsed
  exact late value next (early value next firstParsed) result after restParsed

/-- Reading a mark and going on. -/
theorem expect {mark : Mark}
    {rest : Cursor → Except SourceError (β × Cursor)}
    (late : cursor.peek? = some (.mark mark) →
      Spends start further (rest cursor.advance)) :
    Spends start further (cursor.expect mark >>= rest) := by
  intro result after parsed
  obtain ⟨next, expected, restParsed⟩ := Outcome.bind_eq_ok.1 parsed
  obtain ⟨seen, rfl⟩ := Cursor.peek?_of_expect expected
  exact late seen result after restParsed

end Spends

theorem spends_identifier (cursor : Cursor) :
    Spends cursor (fun name => [.ident name]) cursor.identifier := by
  unfold Cursor.identifier
  split
  next name peeked => exact .ok (Cursor.reads_word peeked)
  next => exact .error

theorem spends_moreParameters (bound : Nat) (cursor : Cursor) :
    Spends cursor
      (fun names => names.flatMap fun name => [.mark .comma, .ident name])
      (moreParameters bound cursor) := by
  induction bound generalizing cursor with
  | zero => exact .error
  | succ bound inner =>
      simp only [moreParameters, plain, pure_bind]
      split
      next afterComma accepted =>
        refine (spends_identifier afterComma).bind
          fun name afterName nameRead => ?_
        refine (inner afterName).bind fun names afterNames namesRead => .ok ?_
        exact ((Cursor.reads_of_accept? accepted).trans nameRead).trans
          namesRead
      next =>
        exact .expect fun seen => .ok ((Cursor.reads_mark seen).congr rfl)

theorem spends_parameters (bound : Nat) (cursor : Cursor) :
    Spends cursor nameWords (parameters bound cursor) := by
  simp only [parameters, plain, pure_bind]
  split
  next afterParen accepted =>
    exact .ok ((Cursor.reads_of_accept? accepted).congr rfl)
  next =>
    refine (spends_identifier cursor).bind fun name afterName nameRead => ?_
    refine (spends_moreParameters bound afterName).bind
      fun names afterNames namesRead => .ok ?_
    exact nameRead.trans namesRead

mutual

/-- The tokens of an expression are its words. -/
theorem spends_expression (bound : Nat) (cursor : Cursor) :
    Spends cursor Expr.words (expression bound cursor) := by
  match bound with
  | 0 => exact .error
  | bound + 1 =>
      simp only [expression, plain, pure_bind]
      refine (spends_binary bound .equality cursor).bind
        fun target after targetRead => ?_
      simp only
      split
      next afterMark accepted =>
        refine (spends_expression bound afterMark).bind
          fun value afterValue valueRead => .ok ?_
        have read :=
          (targetRead.trans (Cursor.reads_of_accept? accepted)).trans valueRead
        exact (read.congr (by simp)).beginningAt
          ((target.begins.inContext 1 target).append _)
      next => exact .ok targetRead

theorem spends_binary (bound : Nat) (level : Precedence) (cursor : Cursor) :
    Spends cursor Expr.words (binary bound level cursor) := by
  match bound with
  | 0 => exact .error
  | bound + 1 =>
      simp only [binary]
      refine (spends_operand bound level cursor).bind
        fun left after leftRead => ?_
      exact spends_moreOperands bound level left leftRead

/-- The left operand has been read since the start. -/
theorem spends_moreOperands
    (bound : Nat) (level : Precedence) (left : Expr)
    {start cursor : Cursor}
    (leftRead : start.Reads left.words cursor) :
    Spends start Expr.words (moreOperands bound level left cursor) := by
  match bound with
  | 0 => exact .error
  | bound + 1 =>
      simp only [moreOperands, plain, pure_bind]
      split
      next op afterOp found =>
        refine (spends_operand bound level afterOp).bind
          fun right after rightRead => ?_
        refine spends_moreOperands bound level _ ?_
        have read :=
          (leftRead.trans (Cursor.reads_of_operator? found)).trans rightRead
        exact (read.congr (by simp)).beginningAt
          ((left.begins.inContext _ left).append _)
      next => exact .ok leftRead

theorem spends_operand (bound : Nat) (level : Precedence) (cursor : Cursor) :
    Spends cursor Expr.words (operand bound level cursor) := by
  match bound with
  | 0 => exact .error
  | bound + 1 =>
      simp only [operand]
      split
      next tighter _ => exact spends_binary bound tighter cursor
      next => exact spends_unary bound cursor

theorem spends_unary (bound : Nat) (cursor : Cursor) :
    Spends cursor Expr.words (unary bound cursor) := by
  match bound with
  | 0 => exact .error
  | bound + 1 =>
      simp only [unary, plain, pure_bind]
      split
      next mark peeked =>
        split
        next op read =>
          refine (spends_unary bound cursor.advance).bind
            fun inner after innerRead => .ok ?_
          rw [← UnaryOp.ofMark?_eq_some_iff.1 read] at peeked
          refine ((Cursor.reads_beginning peeked).trans innerRead).congr ?_
          simp [Expr.words, beginningAt]
        next => exact spends_call bound cursor
      next => exact spends_call bound cursor

theorem spends_call (bound : Nat) (cursor : Cursor) :
    Spends cursor Expr.words (call bound cursor) := by
  match bound with
  | 0 => exact .error
  | bound + 1 =>
      simp only [call]
      refine (spends_primary bound cursor).bind
        fun callee after calleeRead => ?_
      exact spends_moreCalls bound callee calleeRead

/-- The callee has been read since the start. -/
theorem spends_moreCalls
    (bound : Nat) (callee : Expr)
    {start cursor : Cursor}
    (calleeRead : start.Reads callee.words cursor) :
    Spends start Expr.words (moreCalls bound callee cursor) := by
  match bound with
  | 0 => exact .error
  | bound + 1 =>
      simp only [moreCalls, plain, pure_bind]
      split
      next seen =>
        refine (spends_arguments bound cursor.advance).bind
          fun arguments after argumentsRead => ?_
        refine spends_moreCalls bound _ ?_
        have read := (calleeRead.trans (Cursor.reads_of_seesCall seen)).trans
          argumentsRead
        exact (read.congr (by simp [TokenKind.isEssential])).beginningAt
          ((callee.begins.inContext _ callee).append _)
      next => exact .ok calleeRead

theorem spends_arguments (bound : Nat) (cursor : Cursor) :
    Spends cursor (separatedWords .comma) (arguments bound cursor) := by
  match bound with
  | 0 => exact .error
  | bound + 1 =>
      simp only [arguments, plain, pure_bind]
      split
      next afterParen accepted =>
        exact .ok ((Cursor.reads_of_accept? accepted).congr rfl)
      next =>
        refine (spends_expression bound cursor).bind
          fun first afterFirst firstRead => ?_
        refine (spends_moreArguments bound afterFirst).bind
          fun others after othersRead => .ok ?_
        exact firstRead.trans othersRead

theorem spends_moreArguments (bound : Nat) (cursor : Cursor) :
    Spends cursor (furtherWords .comma) (moreArguments bound cursor) := by
  match bound with
  | 0 => exact .error
  | bound + 1 =>
      simp only [moreArguments, plain, pure_bind]
      split
      next afterComma accepted =>
        refine (spends_expression bound afterComma).bind
          fun first afterFirst firstRead => ?_
        refine (spends_moreArguments bound afterFirst).bind
          fun others after othersRead => .ok ?_
        exact ((Cursor.reads_of_accept? accepted).trans firstRead).trans
          othersRead
      next =>
        exact .expect fun seen => .ok ((Cursor.reads_mark seen).congr rfl)

theorem spends_primary (bound : Nat) (cursor : Cursor) :
    Spends cursor Expr.words (primary bound cursor) := by
  match bound with
  | 0 => exact .error
  | bound + 1 =>
      simp only [primary, plain, pure_bind]
      split
      next name peeked => exact .ok (Cursor.reads_beginning peeked)
      next peeked =>
        refine (spends_expression bound cursor.advance).bind
          fun inner after innerRead => ?_
        refine .expect fun seen => .ok ?_
        exact (((Cursor.reads_mark peeked).trans innerRead).trans
          (Cursor.reads_mark seen)).congr
          (by simp [TokenKind.isEssential])
      next =>
        exact (spends_block bound cursor).bind fun body after bodyRead =>
          .ok bodyRead
      next peeked => exact spends_branch bound peeked
      next peeked =>
        refine (spends_expression bound cursor.advance).bind
          fun condition after conditionRead => ?_
        refine (spends_block bound after).bind fun body after bodyRead => .ok ?_
        refine (((Cursor.reads_beginning peeked).trans conditionRead).trans
          bodyRead).congr ?_
        simp [Expr.words, beginningAt]
      next peeked =>
        refine (spends_identifier cursor.advance).bind
          fun name after nameRead => ?_
        refine .expect fun opening => ?_
        refine (spends_parameters bound _).bind fun names after namesRead => ?_
        refine (spends_block bound after).bind fun body after bodyRead => .ok ?_
        refine (((((Cursor.reads_beginning peeked).trans nameRead).trans
          (Cursor.reads_mark opening)).trans namesRead).trans bodyRead).congr ?_
        simp [Expr.words, beginningAt, TokenKind.isEssential]
      next peeked =>
        refine (spends_block bound cursor.advance).bind
          fun body after bodyRead => ?_
        refine (spends_clauses bound after).bind
          fun clauses after clausesRead => ?_
        simp only
        split
        · exact .error
        · refine .ok
            ((((Cursor.reads_beginning peeked).trans bodyRead).trans
              clausesRead).congr ?_)
          simp [Expr.words, beginningAt]
      next peeked =>
        refine (spends_identifier cursor.advance).bind
          fun effect after effectRead => ?_
        have begun := (Cursor.reads_beginning peeked).trans effectRead
        simp only
        split
        next seen =>
          have opened := begun.trans (Cursor.reads_of_seesCall seen)
          split
          next afterParen accepted =>
            refine .ok
              ((opened.trans (Cursor.reads_of_accept? accepted)).congr ?_)
            simp [Expr.words, beginningAt, payloadWords, TokenKind.isEssential]
          next =>
            refine (spends_expression bound after.advance).bind
              fun payload after payloadRead => ?_
            refine .expect fun closing => .ok ?_
            refine ((opened.trans payloadRead).trans
              (Cursor.reads_mark closing)).congr ?_
            simp [Expr.words, beginningAt, payloadWords, TokenKind.isEssential]
        next =>
          refine .ok (begun.congr ?_)
          simp [Expr.words, beginningAt, payloadWords]
      next kind peeked =>
        split
        next value read =>
          rw [← Literal.ofToken?_eq_some_iff.1 read] at peeked
          refine .ok ((Cursor.reads_beginning peeked).congr ?_)
          simp [Expr.words, beginningAt]
        next => exact .error
      next => exact .error

theorem spends_branch
    (bound : Nat)
    {cursor : Cursor}
    (peeked : cursor.peek? = some (.keyword .branch)) :
    Spends cursor Expr.words (branch bound cursor) := by
  match bound with
  | 0 => exact .error
  | bound + 1 =>
      simp only [branch, plain, pure_bind]
      refine (spends_expression bound cursor.advance).bind
        fun condition after conditionRead => ?_
      refine (spends_block bound after).bind
        fun consequence after consequenceRead => ?_
      have begun := ((Cursor.reads_beginning peeked).trans conditionRead).trans
        consequenceRead
      simp only
      split
      next otherwise =>
        have turned : cursor.Reads (_ ++ [.keyword .otherwise]) after.advance :=
          begun.trans (Cursor.reads_word otherwise)
        split
        next again =>
          refine (spends_branch bound again).bind
            fun alternative after alternativeRead => .ok ?_
          refine (turned.trans alternativeRead).congr ?_
          simp [Expr.words, beginningAt, alternativeWords]
        next =>
          refine (spends_block bound after.advance).bind
            fun alternative after alternativeRead => .ok ?_
          refine (turned.trans alternativeRead).congr ?_
          simp [Expr.words, beginningAt, alternativeWords]
      next =>
        refine .ok (begun.congr ?_)
        simp [Expr.words, beginningAt, alternativeWords]

theorem spends_clauses (bound : Nat) (cursor : Cursor) :
    Spends cursor clauseWords (clauses bound cursor) := by
  match bound with
  | 0 => exact .error
  | bound + 1 =>
      simp only [clauses, plain, pure_bind]
      split
      next peeked =>
        refine (spends_identifier cursor.advance).bind
          fun effect after effectRead => ?_
        refine .expect fun opening => ?_
        refine (spends_identifier _).bind
          fun parameter after parameterRead => ?_
        refine .expect fun closing => ?_
        refine (spends_block bound _).bind fun body after bodyRead => ?_
        refine (spends_clauses bound after).bind
          fun others after othersRead => .ok ?_
        have begun := ((Cursor.reads_beginning peeked).trans effectRead).trans
          (Cursor.reads_mark opening)
        have ended := (Cursor.reads_mark closing).trans
          (bodyRead.trans othersRead)
        refine ((begun.trans parameterRead).trans ended).congr ?_
        simp [clauseWords, beginningAt, TokenKind.isEssential]
      next => exact .ok (.refl cursor)

theorem spends_block (bound : Nat) (cursor : Cursor) :
    Spends cursor Block.words (block bound cursor) := by
  match bound with
  | 0 => exact .error
  | bound + 1 =>
      simp only [block, plain, pure_bind]
      refine .expect fun opening => ?_
      refine (spends_sequence bound true _).bind
        fun expressions after expressionsRead => ?_
      refine .expect fun closing => .ok ?_
      have opened := (Cursor.reads_beginning opening).trans
        (Cursor.reads_skipSemicolons _)
      refine ((opened.trans expressionsRead).trans
        (Cursor.reads_mark closing)).congr ?_
      simp [Block.words, beginningAt, TokenKind.isEssential]

theorem spends_sequence (bound : Nat) (braced : Bool) (cursor : Cursor) :
    Spends cursor (separatedWords .semicolon)
      (sequence bound braced cursor) := by
  match bound with
  | 0 => exact .error
  | bound + 1 =>
      simp only [sequence, plain, pure_bind]
      split
      · exact .ok (.refl cursor)
      · refine (spends_expression bound cursor).bind
          fun first after firstRead => ?_
        refine (spends_sequence bound braced after.skipSemicolons).bind
          fun others after othersRead => .ok ?_
        refine (firstRead.trans
          ((Cursor.reads_skipSemicolons _).trans othersRead)).congr ?_
        simp [separatedWords, essential_furtherWords]

end

/-- A program is read up to the end of the input. -/
theorem peek?_of_sequence {bound : Nat}
    {cursor after : Cursor} {expressions : List Expr}
    (parsed : sequence bound false cursor = .ok (expressions, after)) :
    after.peek? = none := by
  induction bound generalizing cursor expressions with
  | zero => cases parsed
  | succ bound inner =>
      simp only [sequence, plain, pure_bind] at parsed
      split at parsed
      next ended =>
        cases parsed
        simpa using ended
      next =>
        obtain ⟨_, _, restParsed⟩ := Outcome.bind_eq_ok.1 parsed
        obtain ⟨⟨others, last⟩, othersParsed, result⟩ :=
          Outcome.bind_eq_ok.1 restParsed
        cases result
        exact inner othersParsed

end Parser

/-! ## Programs -/

/-- The tokens before the first end of the input. -/
def beforeEnd (tokens : List Token) : List Token :=
  tokens.takeWhile fun token => token.kind ≠ .endOfInput

/-- What is read up to the end of the input are the tokens before it. -/
theorem Cursor.beforeEnd_eq {used : List Token}
    {after : Cursor}
    (inside : ∀ token ∈ used, token.kind ≠ .endOfInput)
    (ended : after.peek? = none) :
    beforeEnd (used ++ after.rest) = used := by
  have stops : beforeEnd after.rest = [] := by
    unfold Cursor.peek? at ended
    split at ended
    next empty => rw [empty]; rfl
    next token rest nonempty =>
      split at ended
      next last => simp [beforeEnd, nonempty, last]
      next => cases ended
  rw [beforeEnd, List.takeWhile_append_of_pos (by simpa using inside)]
  exact (congrArg (used ++ ·) stops).trans (List.append_nil used)

/-- The parser invents, drops and reorders nothing. Parentheses and semicolons
aside, the tokens before the end of the input are those of the canonical writing
of the parsed program, in the same order; and every expression, block and clause
in the program has the place of the token that it begins with. -/
theorem parse_keeps_tokens {tokens : List Token}
    {program : Block}
    (parsed : Block.parse tokens = .ok program) :
    ((beforeEnd tokens).map Token.kind).filter TokenKind.isEssential =
        program.rendering.filter TokenKind.isEssential ∧
      List.Forall₂ Word.WrittenBy (essential program.programWords)
        (essentialTokens (beforeEnd tokens)) := by
  obtain ⟨expressions, after, sequenceParsed, rfl⟩ := Block.parse_eq_ok.1 parsed
  obtain ⟨used, used_eq, inside, written⟩ :=
    Parser.spends_sequence _ false _ _ _ sequenceParsed
  have ended := Parser.peek?_of_sequence sequenceParsed
  have used_eq_tokens : beforeEnd tokens = used := by
    rw [show tokens = used ++ after.rest from used_eq]
    exact Cursor.beforeEnd_eq inside ended
  rw [used_eq_tokens]
  refine ⟨?_, written⟩
  simp only [Block.rendering, List.filter_map]
  exact kinds_of_written written

/-- Tokens of a program that is not written canonically: `(a + b) * 2; do e`,
with a line feed before `b` and before `do`. -/
def scatteredTokens : List Token :=
  [⟨.mark .leftParen, ⟨1, 1⟩⟩, ⟨.ident "a", ⟨1, 2⟩⟩, ⟨.mark .plus, ⟨1, 4⟩⟩,
    ⟨.ident "b", ⟨2, 1⟩⟩, ⟨.mark .rightParen, ⟨2, 2⟩⟩, ⟨.mark .star, ⟨2, 4⟩⟩,
    ⟨.int 2, ⟨2, 6⟩⟩, ⟨.mark .semicolon, ⟨2, 7⟩⟩, ⟨.keyword .perform, ⟨3, 1⟩⟩,
    ⟨.ident "e", ⟨3, 4⟩⟩, ⟨.endOfInput, ⟨3, 5⟩⟩]

/-- The program that the scattered tokens write. -/
def scatteredProgram : Block :=
  ⟨[.binary .mul (.binary .add (.ident "a" ⟨1, 2⟩) (.ident "b" ⟨2, 1⟩) ⟨1, 2⟩)
      (.literal (.int 2) ⟨2, 6⟩) ⟨1, 2⟩, .perform "e" none ⟨3, 1⟩], ⟨1, 1⟩⟩

theorem parse_keeps_scatteredTokens :
    Block.parse scatteredTokens = .ok scatteredProgram ∧
      ((beforeEnd scatteredTokens).map Token.kind).filter
          TokenKind.isEssential =
        scatteredProgram.rendering.filter TokenKind.isEssential ∧
      List.Forall₂ Word.WrittenBy (essential scatteredProgram.programWords)
        (essentialTokens (beforeEnd scatteredTokens)) := by
  have parsed : Block.parse scatteredTokens = .ok scatteredProgram := rfl
  exact ⟨parsed, parse_keeps_tokens parsed⟩

end EffectScript
