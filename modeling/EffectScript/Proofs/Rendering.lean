import EffectScript.Expression.Parser

/-!
# The canonical writing of a program

A program is written with semicolons between the expressions of a block, and
with parentheses around an expression only where its context binds tighter than
the expression holds together. An effect without payload is written with empty
parentheses.

The writing is a list of words. A word is the kind of a token together with the
places of all expressions, blocks and clauses that begin with it; parentheses
that only group do not count as a beginning.
-/

namespace EffectScript

/-! ## Operators and literals as tokens -/

/-- The level of an operator. -/
def BinaryOp.level : BinaryOp → Precedence
  | .eq | .ne => .equality
  | .lt | .le | .gt | .ge => .ordering
  | .add | .sub => .sum
  | .mul | .div => .product

/-- The mark that writes an operator. -/
def BinaryOp.mark : BinaryOp → Mark
  | .add => .plus
  | .sub => .minus
  | .mul => .star
  | .div => .slash
  | .eq => .equalTo
  | .ne => .notEqualTo
  | .lt => .less
  | .le => .atMost
  | .gt => .greater
  | .ge => .atLeast

/-- The mark that writes a prefix operator. -/
def UnaryOp.mark : UnaryOp → Mark
  | .neg => .minus
  | .not => .bang

/-- The token that writes a literal. -/
def Literal.token : Literal → TokenKind
  | .int value => .int value
  | .float value => .float value
  | .str text => .str text
  | .bool true => .keyword .yes
  | .bool false => .keyword .no
  | .nil => .keyword .nothing

/-- A mark is read as an operator on the level of the operator that it writes,
and on no other. -/
theorem Precedence.operator?_eq_some_iff
    {level : Precedence} {mark : Mark} {op : BinaryOp} :
    level.operator? mark = some op ↔ op.level = level ∧ op.mark = mark := by
  cases level <;> cases mark <;> cases op <;> decide

theorem UnaryOp.ofMark?_eq_some_iff {mark : Mark} {op : UnaryOp} :
    UnaryOp.ofMark? mark = some op ↔ op.mark = mark := by
  cases mark <;> cases op <;> decide

theorem Literal.ofToken?_token (value : Literal) :
    Literal.ofToken? value.token = some value := by
  cases value with
  | bool value => cases value <;> rfl
  | _ => rfl

theorem Literal.ofToken?_mark (sign : Mark) :
    Literal.ofToken? (.mark sign) = none := rfl

theorem Literal.ofToken?_eq_some_iff {kind : TokenKind} {value : Literal} :
    Literal.ofToken? kind = some value ↔ value.token = kind := by
  constructor
  · intro read
    cases kind with
    | keyword word => cases word <;> cases read <;> rfl
    | _ => cases read <;> rfl
  · rintro rfl
    exact Literal.ofToken?_token value

/-! ## Words -/

/-- A token of the canonical writing, and the places of everything that begins
with it. -/
structure Word where
  kind : TokenKind
  begins : List Position := []

/-- Whether a token does more than group or separate. -/
def TokenKind.isEssential : TokenKind → Bool
  | .mark .leftParen | .mark .rightParen | .mark .semicolon => false
  | _ => true

namespace Word

/-- A mark that nothing begins with yet. -/
def mark (sign : Mark) : Word := ⟨.mark sign, []⟩

/-- A reserved word that nothing begins with yet. -/
def keyword (word : Keyword) : Word := ⟨.keyword word, []⟩

/-- An identifier that nothing begins with yet. -/
def ident (name : String) : Word := ⟨.ident name, []⟩

end Word

/-- The words, with a place among those of the first essential one. -/
def beginningAt (position : Position) : List Word → List Word
  | [] => []
  | word :: words =>
      if word.kind.isEssential then
        ⟨word.kind, position :: word.begins⟩ :: words
      else word :: beginningAt position words

/-- The words between parentheses. -/
def parenthesised (words : List Word) : List Word :=
  .mark .leftParen :: words ++ [.mark .rightParen]

/-! ## Expressions -/

/-- How tightly the operators of a level bind. -/
def Precedence.rank : Precedence → Nat
  | .equality => 1
  | .ordering => 2
  | .sum => 3
  | .product => 4

/-- How tightly an expression holds together: least of all an assignment, then
binary operators by their level, prefix operators, calls, and most of all
everything else. -/
def Expr.tightness : Expr → Nat
  | .assign .. => 0
  | .binary op .. => op.level.rank
  | .unary .. => 5
  | .call .. => 6
  | _ => 7

/-- The words of an expression in a context that binds with the given
tightness. -/
def Expr.inContext (context : Nat) (expression : Expr) (words : List Word) :
    List Word :=
  if expression.tightness < context then parenthesised words else words

/-- The words of a list of names with commas between them. -/
def nameWords : List String → List Word
  | [] => []
  | first :: others => .ident first :: others.flatMap fun name =>
      [.mark .comma, .ident name]

mutual

/-- The words of an expression that needs no parentheses. -/
def Expr.words : Expr → List Word
  | .ident name position => beginningAt position [.ident name]
  | .literal value position => beginningAt position [⟨value.token, []⟩]
  | .binary op left right position =>
      beginningAt position (left.inContext op.level.rank left.words ++
        .mark op.mark :: right.inContext (op.level.rank + 1) right.words)
  | .unary op operand position =>
      beginningAt position (.mark op.mark :: operand.inContext 5 operand.words)
  | .call callee arguments position =>
      beginningAt position (callee.inContext 6 callee.words ++
        parenthesised (separatedWords .comma arguments))
  | .assign target value position =>
      beginningAt position
        (target.inContext 1 target.words ++ .mark .assign :: value.words)
  | .define name parameters body position =>
      beginningAt position (.keyword .define :: .ident name ::
        parenthesised (nameWords parameters) ++ body.words)
  | .block body => body.words
  | .branch condition consequence alternative position =>
      beginningAt position
        (.keyword .branch :: condition.words ++ consequence.words ++
        alternativeWords alternative)
  | .loop condition body position =>
      beginningAt position (.keyword .loop :: condition.words ++ body.words)
  | .attempt body clauses position =>
      beginningAt position
        (.keyword .attempt :: body.words ++ clauseWords clauses)
  | .perform effect payload position =>
      beginningAt position (.keyword .perform :: .ident effect ::
        parenthesised (payloadWords payload))

/-- The words of a block with its braces. -/
def Block.words : Block → List Word
  | ⟨expressions, position⟩ =>
      beginningAt position
        (.mark .leftBrace :: separatedWords .semicolon expressions ++
          [.mark .rightBrace])

/-- The words of expressions with a mark between any two of them. -/
def separatedWords (separator : Mark) : List Expr → List Word
  | [] => []
  | first :: others => first.words ++ furtherWords separator others

/-- The words of expressions with a mark before each of them. -/
def furtherWords (separator : Mark) : List Expr → List Word
  | [] => []
  | next :: others =>
      .mark separator :: next.words ++ furtherWords separator others

/-- The words of what follows the first block of a choice. -/
def alternativeWords : Option Expr → List Word
  | none => []
  | some alternative => .keyword .otherwise :: alternative.words

/-- The words of a payload, if there is one. -/
def payloadWords : Option Expr → List Word
  | none => []
  | some payload => payload.words

/-- The words of the clauses of an attempt. -/
def clauseWords : List Clause → List Word
  | [] => []
  | ⟨effect, parameter, body, position⟩ :: others =>
      beginningAt position (.keyword .handle :: .ident effect ::
        parenthesised [.ident parameter] ++ body.words) ++ clauseWords others

end

/-- The words of a whole program, which has no braces. -/
def Block.programWords (program : Block) : List Word :=
  separatedWords .semicolon program.expressions

/-- The canonical writing of a program. -/
def Block.rendering (program : Block) : List TokenKind :=
  program.programWords.map Word.kind

/-! ## Programs up to places -/

mutual

/-- The expression with all places forgotten. -/
@[simp]
def Expr.unplaced : Expr → Expr
  | .ident name _ => .ident name .start
  | .literal value _ => .literal value .start
  | .binary op left right _ => .binary op left.unplaced right.unplaced .start
  | .unary op operand _ => .unary op operand.unplaced .start
  | .call callee arguments _ =>
      .call callee.unplaced (unplacedAll arguments) .start
  | .assign target value _ => .assign target.unplaced value.unplaced .start
  | .define name parameters body _ =>
      .define name parameters body.unplaced .start
  | .block body => .block body.unplaced
  | .branch condition consequence alternative _ =>
      .branch condition.unplaced consequence.unplaced
        (unplacedOptional alternative) .start
  | .loop condition body _ => .loop condition.unplaced body.unplaced .start
  | .attempt body clauses _ =>
      .attempt body.unplaced (unplacedClauses clauses) .start
  | .perform effect payload _ =>
      .perform effect (unplacedOptional payload) .start

/-- The block with all places forgotten. -/
@[simp]
def Block.unplaced : Block → Block
  | ⟨expressions, _⟩ => ⟨unplacedAll expressions, .start⟩

/-- The expressions with all places forgotten. -/
@[simp]
def unplacedAll : List Expr → List Expr
  | [] => []
  | first :: others => first.unplaced :: unplacedAll others

/-- The expression, if there is one, with all places forgotten. -/
@[simp]
def unplacedOptional : Option Expr → Option Expr
  | none => none
  | some expression => some expression.unplaced

/-- The clauses with all places forgotten. -/
@[simp]
def unplacedClauses : List Clause → List Clause
  | [] => []
  | ⟨effect, parameter, body, _⟩ :: others =>
      ⟨effect, parameter, body.unplaced, .start⟩ :: unplacedClauses others

end

/-! ## Programs that can be written -/

/-- Whether the expression can stand behind `else`. -/
def Expr.isAlternative : Expr → Bool
  | .branch .. | .block _ => true
  | _ => false

mutual

/-- Whether the grammar has a form for everything in the expression:
alternatives are choices or blocks, and attempts have clauses. -/
def Expr.isWritable : Expr → Bool
  | .ident .. | .literal .. => true
  | .binary _ left right _ => left.isWritable && right.isWritable
  | .unary _ operand _ => operand.isWritable
  | .call callee arguments _ => callee.isWritable && areWritable arguments
  | .assign target value _ => target.isWritable && value.isWritable
  | .define _ _ body _ => body.isWritable
  | .block body => body.isWritable
  | .branch condition consequence alternative _ =>
      condition.isWritable && consequence.isWritable &&
        isWritableAlternative alternative
  | .loop condition body _ => condition.isWritable && body.isWritable
  | .attempt body clauses _ => body.isWritable && !clauses.isEmpty &&
      areWritableClauses clauses
  | .perform _ payload _ => isWritableOptional payload

/-- Whether the grammar has a form for everything in the block. -/
def Block.isWritable : Block → Bool
  | ⟨expressions, _⟩ => areWritable expressions

/-- Whether the grammar has a form for everything in the expressions. -/
def areWritable : List Expr → Bool
  | [] => true
  | first :: others => first.isWritable && areWritable others

/-- Whether the grammar has a form for the expression, if there is one. -/
def isWritableOptional : Option Expr → Bool
  | none => true
  | some expression => expression.isWritable

/-- Whether the grammar has a form for what follows the first block of a
choice. -/
def isWritableAlternative : Option Expr → Bool
  | none => true
  | some alternative => alternative.isAlternative && alternative.isWritable

/-- Whether the grammar has a form for everything in the clauses. -/
def areWritableClauses : List Clause → Bool
  | [] => true
  | ⟨_, _, body, _⟩ :: others => body.isWritable && areWritableClauses others

end

end EffectScript
