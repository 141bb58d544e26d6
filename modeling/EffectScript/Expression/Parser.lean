import EffectScript.Expression
import EffectScript.Token.Error

/-!
# From tokens to expressions

The grammar, from the loosest to the tightest form: assignment, which is right
associative; four levels of binary operators, which are left associative; prefix
operators; calls; and primaries. A parenthesis opens a call only on the line on
which the callee ends, so that a line can begin with a parenthesised expression.
Semicolons separate the expressions of a block and may be left out or repeated.

All functions work on a cursor over the tokens and never move it beyond the
first end of the input. They take a bound on the depth of the recursion, which
`Block.parse` chooses large enough.

They are written for any kind of computation that can refuse tokens and advance
a cursor. Programs are parsed with the plain one, whose only effect is to fail.
-/

namespace EffectScript

/-- The levels of binary operators, the loosest first. -/
inductive Precedence where
  | equality
  | ordering
  | sum
  | product
deriving DecidableEq

namespace Precedence

/-- The next tighter level of binary operators. -/
def tighter? : Precedence → Option Precedence
  | .equality => some .ordering
  | .ordering => some .sum
  | .sum => some .product
  | .product => none

/-- The operator that a mark writes on a level. -/
def operator? : Precedence → Mark → Option BinaryOp
  | .equality, .equalTo => some .eq
  | .equality, .notEqualTo => some .ne
  | .ordering, .less => some .lt
  | .ordering, .atMost => some .le
  | .ordering, .greater => some .gt
  | .ordering, .atLeast => some .ge
  | .sum, .plus => some .add
  | .sum, .minus => some .sub
  | .product, .star => some .mul
  | .product, .slash => some .div
  | _, _ => none

end Precedence

/-- The prefix operator that a mark writes. -/
def UnaryOp.ofMark? : Mark → Option UnaryOp
  | .minus => some .neg
  | .bang => some .not
  | _ => none

/-- The tokens that are still to be read and the place of the token read
last. -/
structure Cursor where
  rest : List Token
  previous : Position

namespace Cursor

/-- The kind of the next token; `none` at the end of the input. -/
def peek? (cursor : Cursor) : Option TokenKind :=
  match cursor.rest with
  | [] => none
  | token :: _ => if token.kind = .endOfInput then none else some token.kind

/-- The place of the next token. -/
def position (cursor : Cursor) : Position :=
  match cursor.rest with
  | [] => Position.start
  | token :: _ => token.position

/-- The cursor after the next token; it does not move at the end of the
input. -/
def advance (cursor : Cursor) : Cursor :=
  match cursor.rest with
  | [] => cursor
  | token :: rest =>
      if token.kind = .endOfInput then cursor else
        { rest := rest, previous := token.position }

/-- Refuses the next token. -/
def refuse (cursor : Cursor) (wanted : Expectation) : SourceError :=
  ⟨.expected wanted cursor.peek?, cursor.position⟩

/-- Whether the next token is the given mark. -/
def sees (cursor : Cursor) (mark : Mark) : Bool :=
  cursor.peek? = some (.mark mark)

/-- Whether a parenthesis opens a call here: it stands on the line of the token
before it. -/
def seesCall (cursor : Cursor) : Bool :=
  cursor.sees .leftParen && decide (cursor.position.line = cursor.previous.line)

end Cursor

/-- The kinds of computations that read tokens. -/
class ReadsTokens (m : Type → Type) where
  /-- Refuses what is read. -/
  fail {α : Type} (error : SourceError) : m α
  /-- Advances a cursor. -/
  move (cursor : Cursor) : m Cursor

@[default_instance]
instance : ReadsTokens (Except SourceError) where
  fail := .error
  move cursor := .ok cursor.advance

section

variable {m : Type → Type} [Monad m] [ReadsTokens m]

open ReadsTokens

namespace Cursor

/-- Reads the given mark if it comes next. -/
def accept (cursor : Cursor) (mark : Mark) : m (Option Cursor) :=
  if cursor.sees mark then do
    let afterMark ← move cursor
    return some afterMark
  else return none

/-- Reads the given mark. -/
def expect (cursor : Cursor) (mark : Mark) : m Cursor :=
  if cursor.sees mark then move cursor else fail (cursor.refuse (.mark mark))

/-- Reads an identifier. -/
def identifier (cursor : Cursor) : m (String × Cursor) :=
  match cursor.peek? with
  | some (.ident name) => do
      let afterName ← move cursor
      return (name, afterName)
  | _ => fail (cursor.refuse .identifier)

/-- Reads a binary operator of the given level if one comes next. -/
def operator (cursor : Cursor) (level : Precedence) :
    m (Option (BinaryOp × Cursor)) :=
  match cursor.peek? with
  | some (.mark mark) =>
      match level.operator? mark with
      | some op => do
          let afterOp ← move cursor
          return some (op, afterOp)
      | none => return none
  | _ => return none

/-- Passes over semicolons at the front of the tokens. -/
def passSemicolonsFrom (previous : Position) : List Token → m Cursor
  | [] => return ⟨[], previous⟩
  | token :: rest =>
      if token.kind = .mark .semicolon then do
        let next ← move ⟨token :: rest, previous⟩
        passSemicolonsFrom next.previous rest
      else return ⟨token :: rest, previous⟩

/-- Passes over semicolons. -/
def passSemicolons (cursor : Cursor) : m Cursor :=
  passSemicolonsFrom cursor.previous cursor.rest

end Cursor

/-- The literal that a token writes. -/
def Literal.ofToken? : TokenKind → Option Literal
  | .int value => some (.int value)
  | .float value => some (.float value)
  | .str text => some (.str text)
  | .keyword .yes => some (.bool true)
  | .keyword .no => some (.bool false)
  | .keyword .nothing => some .nil
  | _ => none

namespace Parser

/-- Reads further names behind commas, up to the closing parenthesis. -/
def moreParameters : Nat → Cursor → m (List String × Cursor)
  | 0, cursor => fail ⟨.nestedTooDeep, cursor.position⟩
  | bound + 1, cursor => do
      match ← cursor.accept .comma with
      | some afterComma =>
          let (name, afterName) ← afterComma.identifier
          let (names, afterNames) ← moreParameters bound afterName
          return (name :: names, afterNames)
      | none =>
          let afterParen ← cursor.expect .rightParen
          return ([], afterParen)

/-- Reads the names between parentheses, from behind the opening one. -/
def parameters (bound : Nat) (cursor : Cursor) : m (List String × Cursor) := do
  match ← cursor.accept .rightParen with
  | some afterParen => return ([], afterParen)
  | none =>
      let (name, afterName) ← cursor.identifier
      let (names, afterNames) ← moreParameters bound afterName
      return (name :: names, afterNames)

mutual

/-- Reads an expression: an assignment or anything tighter. -/
def expression : Nat → Cursor → m (Expr × Cursor)
  | 0, cursor => fail ⟨.nestedTooDeep, cursor.position⟩
  | bound + 1, cursor => do
      let (target, afterTarget) ← binary bound .equality cursor
      match ← afterTarget.accept .assign with
      | some afterMark =>
          let (value, afterValue) ← expression bound afterMark
          return (.assign target value target.position, afterValue)
      | none => return (target, afterTarget)

/-- Reads operands joined by the binary operators of a level. -/
def binary : Nat → Precedence → Cursor → m (Expr × Cursor)
  | 0, _, cursor => fail ⟨.nestedTooDeep, cursor.position⟩
  | bound + 1, level, cursor => do
      let (left, afterLeft) ← operand bound level cursor
      moreOperands bound level left afterLeft

/-- Reads further operators of a level and their right operands. -/
def moreOperands : Nat → Precedence → Expr → Cursor → m (Expr × Cursor)
  | 0, _, _, cursor => fail ⟨.nestedTooDeep, cursor.position⟩
  | bound + 1, level, left, cursor => do
      match ← cursor.operator level with
      | some (op, afterOp) =>
          let (right, afterRight) ← operand bound level afterOp
          moreOperands bound level
            (.binary op left right left.position) afterRight
      | none => return (left, cursor)

/-- Reads an operand of the operators of a level. -/
def operand : Nat → Precedence → Cursor → m (Expr × Cursor)
  | 0, _, cursor => fail ⟨.nestedTooDeep, cursor.position⟩
  | bound + 1, level, cursor =>
      match level.tighter? with
      | some tighter => binary bound tighter cursor
      | none => unary bound cursor

/-- Reads prefix operators and their operand. -/
def unary : Nat → Cursor → m (Expr × Cursor)
  | 0, cursor => fail ⟨.nestedTooDeep, cursor.position⟩
  | bound + 1, cursor =>
      match cursor.peek? with
      | some (.mark mark) =>
          match UnaryOp.ofMark? mark with
          | some op => do
              let afterMark ← move cursor
              let (inner, afterInner) ← unary bound afterMark
              return (.unary op inner cursor.position, afterInner)
          | none => call bound cursor
      | _ => call bound cursor

/-- Reads a primary and the calls made on it. -/
def call : Nat → Cursor → m (Expr × Cursor)
  | 0, cursor => fail ⟨.nestedTooDeep, cursor.position⟩
  | bound + 1, cursor => do
      let (callee, afterCallee) ← primary bound cursor
      moreCalls bound callee afterCallee

/-- Reads further argument lists. -/
def moreCalls : Nat → Expr → Cursor → m (Expr × Cursor)
  | 0, _, cursor => fail ⟨.nestedTooDeep, cursor.position⟩
  | bound + 1, callee, cursor =>
      if cursor.seesCall then do
        let afterParen ← move cursor
        let (arguments, afterArguments) ← arguments bound afterParen
        moreCalls bound (.call callee arguments callee.position) afterArguments
      else return (callee, cursor)

/-- Reads arguments from behind the opening parenthesis to the closing one. -/
def arguments : Nat → Cursor → m (List Expr × Cursor)
  | 0, cursor => fail ⟨.nestedTooDeep, cursor.position⟩
  | bound + 1, cursor => do
      match ← cursor.accept .rightParen with
      | some afterParen => return ([], afterParen)
      | none =>
          let (first, afterFirst) ← expression bound cursor
          let (others, afterOthers) ← moreArguments bound afterFirst
          return (first :: others, afterOthers)

/-- Reads further arguments behind commas, up to the closing parenthesis. -/
def moreArguments : Nat → Cursor → m (List Expr × Cursor)
  | 0, cursor => fail ⟨.nestedTooDeep, cursor.position⟩
  | bound + 1, cursor => do
      match ← cursor.accept .comma with
      | some afterComma =>
          let (first, afterFirst) ← expression bound afterComma
          let (others, afterOthers) ← moreArguments bound afterFirst
          return (first :: others, afterOthers)
      | none =>
          let afterParen ← cursor.expect .rightParen
          return ([], afterParen)

/-- Reads a literal, a name, a parenthesised expression or a form that begins
with a keyword. -/
def primary : Nat → Cursor → m (Expr × Cursor)
  | 0, cursor => fail ⟨.nestedTooDeep, cursor.position⟩
  | bound + 1, cursor =>
      match cursor.peek? with
      | some (.ident name) => do
          let afterName ← move cursor
          return (.ident name cursor.position, afterName)
      | some (.mark .leftParen) => do
          let afterOpening ← move cursor
          let (inner, afterInner) ← expression bound afterOpening
          let afterParen ← afterInner.expect .rightParen
          return (inner, afterParen)
      | some (.mark .leftBrace) => do
          let (body, afterBody) ← block bound cursor
          return (.block body, afterBody)
      | some (.keyword .branch) => branch bound cursor
      | some (.keyword .loop) => do
          let afterKeyword ← move cursor
          let (condition, afterCondition) ← expression bound afterKeyword
          let (body, afterBody) ← block bound afterCondition
          return (.loop condition body cursor.position, afterBody)
      | some (.keyword .define) => do
          let afterKeyword ← move cursor
          let (name, afterName) ← afterKeyword.identifier
          let afterParen ← afterName.expect .leftParen
          let (names, afterNames) ← parameters bound afterParen
          let (body, afterBody) ← block bound afterNames
          return (.define name names body cursor.position, afterBody)
      | some (.keyword .attempt) => do
          let afterKeyword ← move cursor
          let (body, afterBody) ← block bound afterKeyword
          let (clauses, afterClauses) ← clauses bound afterBody
          if clauses.isEmpty then fail (afterClauses.refuse .handleClause)
          else return (.attempt body clauses cursor.position, afterClauses)
      | some (.keyword .perform) => do
          let afterKeyword ← move cursor
          let (effect, afterEffect) ← afterKeyword.identifier
          if afterEffect.seesCall then
            let afterOpening ← move afterEffect
            match ← afterOpening.accept .rightParen with
            | some afterParen =>
                return (.perform effect none cursor.position, afterParen)
            | none =>
                let (payload, afterPayload) ← expression bound afterOpening
                let afterParen ← afterPayload.expect .rightParen
                return (.perform effect (some payload)
                  cursor.position, afterParen)
          else return (.perform effect none cursor.position, afterEffect)
      | some kind =>
          match Literal.ofToken? kind with
          | some value => do
              let afterLiteral ← move cursor
              return (.literal value cursor.position, afterLiteral)
          | none => fail (cursor.refuse .expression)
      | none => fail (cursor.refuse .expression)

/-- Reads a choice, from its keyword on. -/
def branch : Nat → Cursor → m (Expr × Cursor)
  | 0, cursor => fail ⟨.nestedTooDeep, cursor.position⟩
  | bound + 1, cursor => do
      let afterKeyword ← move cursor
      let (condition, afterCondition) ← expression bound afterKeyword
      let (consequence, afterConsequence) ← block bound afterCondition
      if afterConsequence.peek? = some (.keyword .otherwise) then
        let afterElse ← move afterConsequence
        if afterElse.peek? = some (.keyword .branch) then
          let (alternative, afterAlternative) ← branch bound afterElse
          return (.branch condition consequence (some alternative)
            cursor.position,
            afterAlternative)
        else
          let (alternative, afterAlternative) ← block bound afterElse
          return (.branch condition consequence (some (.block alternative))
            cursor.position,
            afterAlternative)
      else return (.branch condition consequence none cursor.position,
        afterConsequence)

/-- Reads the clauses of an attempt. -/
def clauses : Nat → Cursor → m (List Clause × Cursor)
  | 0, cursor => fail ⟨.nestedTooDeep, cursor.position⟩
  | bound + 1, cursor =>
      if cursor.peek? = some (.keyword .handle) then do
        let afterKeyword ← move cursor
        let (effect, afterEffect) ← afterKeyword.identifier
        let afterOpening ← afterEffect.expect .leftParen
        let (parameter, afterParameter) ← afterOpening.identifier
        let afterClosing ← afterParameter.expect .rightParen
        let (body, afterBody) ← block bound afterClosing
        let (others, afterOthers) ← clauses bound afterBody
        return (⟨effect, parameter, body, cursor.position⟩ :: others,
          afterOthers)
      else return ([], cursor)

/-- Reads a block with its braces. -/
def block : Nat → Cursor → m (Block × Cursor)
  | 0, cursor => fail ⟨.nestedTooDeep, cursor.position⟩
  | bound + 1, cursor => do
      let afterOpening ← cursor.expect .leftBrace
      let inside ← afterOpening.passSemicolons
      let (expressions, afterExpressions) ← sequence bound true inside
      let afterClosing ← afterExpressions.expect .rightBrace
      return (⟨expressions, cursor.position⟩, afterClosing)

/-- Reads the expressions of a block or, when not `braced`, of a program. -/
def sequence : Nat → Bool → Cursor → m (List Expr × Cursor)
  | 0, _, cursor => fail ⟨.nestedTooDeep, cursor.position⟩
  | bound + 1, braced, cursor =>
      if cursor.peek?.isNone || (braced && cursor.sees .rightBrace) then
        return ([], cursor)
      else do
        let (first, afterFirst) ← expression bound cursor
        let next ← afterFirst.passSemicolons
        let (others, afterOthers) ← sequence bound braced next
        return (first :: others, afterOthers)

end

/-- A bound on the depth of the recursion that is large enough for the given
count of tokens. -/
def depthFor (tokenCount : Nat) : Nat :=
  16 * (tokenCount + 1)

end Parser

/-- The program that a list of tokens writes. -/
def Block.parse (tokens : List Token) : m Block := do
  let cursor : Cursor := ⟨tokens, Position.start⟩
  let (expressions, _) ← Parser.sequence (Parser.depthFor tokens.length)
    false cursor
  return ⟨expressions, cursor.position⟩

end

end EffectScript
