import EffectScript.Decimal.Layout
import EffectScript.Position
import EffectScript.Text.Quoted

/-!
# Tokens

The words, marks and literals of a source text. Every kind of token has a
*label*, the name under which an error message speaks of it.
-/

namespace EffectScript

/-- The reserved words. -/
inductive Keyword where
  | define
  | branch
  | otherwise
  | loop
  | yes
  | no
  | nothing
  | attempt
  | handle
  | perform
deriving DecidableEq

namespace Keyword

/-- All reserved words. -/
def all : List Keyword :=
  [.define, .branch, .otherwise, .loop, .yes, .no, .nothing, .attempt,
    .handle, .perform]

/-- How the word is written in a source text. -/
def spelling : Keyword → String
  | .define => "fn"
  | .branch => "if"
  | .otherwise => "else"
  | .loop => "while"
  | .yes => "true"
  | .no => "false"
  | .nothing => "nil"
  | .attempt => "try"
  | .handle => "handle"
  | .perform => "do"

/-- How an error message names the word. -/
def label : Keyword → String
  | .define => "Fn"
  | .branch => "If"
  | .otherwise => "Else"
  | .loop => "While"
  | .yes => "True"
  | .no => "False"
  | .nothing => "Nil"
  | .attempt => "Try"
  | .handle => "Handle"
  | .perform => "Do"

/-- The reserved word with the given spelling. -/
def ofSpelling? (spelling : String) : Option Keyword :=
  all.find? fun keyword => keyword.spelling = spelling

@[simp]
theorem ofSpelling?_spelling (keyword : Keyword) :
    ofSpelling? keyword.spelling = some keyword := by
  cases keyword <;> decide

end Keyword

/-- Operators and punctuation. -/
inductive Mark where
  | plus
  | minus
  | star
  | slash
  | equalTo
  | notEqualTo
  | less
  | atMost
  | greater
  | atLeast
  | bang
  | assign
  | leftParen
  | rightParen
  | leftBrace
  | rightBrace
  | comma
  | semicolon
deriving DecidableEq

namespace Mark

/-- How the mark is written in a source text. -/
def spelling : Mark → String
  | .plus => "+"
  | .minus => "-"
  | .star => "*"
  | .slash => "/"
  | .equalTo => "=="
  | .notEqualTo => "!="
  | .less => "<"
  | .atMost => "<="
  | .greater => ">"
  | .atLeast => ">="
  | .bang => "!"
  | .assign => "="
  | .leftParen => "("
  | .rightParen => ")"
  | .leftBrace => "\x7b"
  | .rightBrace => "\x7d"
  | .comma => ","
  | .semicolon => ";"

/-- How an error message names the mark. -/
def label : Mark → String
  | .plus => "Plus"
  | .minus => "Minus"
  | .star => "Star"
  | .slash => "Slash"
  | .equalTo => "EqEq"
  | .notEqualTo => "NotEq"
  | .less => "Lt"
  | .atMost => "Le"
  | .greater => "Gt"
  | .atLeast => "Ge"
  | .bang => "Bang"
  | .assign => "Eq"
  | .leftParen => "LParen"
  | .rightParen => "RParen"
  | .leftBrace => "LBrace"
  | .rightBrace => "RBrace"
  | .comma => "Comma"
  | .semicolon => "Semi"

/-- The mark that a character makes on its own. -/
def ofCharacter? (character : Char) : Option Mark :=
  match character with
  | '+' => some .plus
  | '-' => some .minus
  | '*' => some .star
  | '/' => some .slash
  | '<' => some .less
  | '>' => some .greater
  | '!' => some .bang
  | '=' => some .assign
  | '(' => some .leftParen
  | ')' => some .rightParen
  | '\x7b' => some .leftBrace
  | '\x7d' => some .rightBrace
  | ',' => some .comma
  | ';' => some .semicolon
  | _ => none

/-- The mark made of the given mark and an equals sign after it. -/
def withEquals? : Mark → Option Mark
  | .less => some .atMost
  | .greater => some .atLeast
  | .bang => some .notEqualTo
  | .assign => some .equalTo
  | _ => none

end Mark

/-- What a token is, apart from its place. -/
inductive TokenKind where
  | keyword (word : Keyword)
  | mark (sign : Mark)
  | int (value : Int64)
  | float (value : Decimal.Binary)
  | str (text : String)
  | ident (name : String)
  | endOfInput
deriving DecidableEq

/-- How an error message describes a token. -/
def TokenKind.label : TokenKind → String
  | .keyword word => word.label
  | .mark sign => sign.label
  | .int value => "Int(" ++ toString value.toInt ++ ")"
  | .float value => "Float(" ++ Decimal.Layout.literal.write value ++ ")"
  | .str text => "Str(" ++ Text.quote text ++ ")"
  | .ident name => "Ident(" ++ Text.quote name ++ ")"
  | .endOfInput => "Eof"

/-- A token and the place of its first character. -/
structure Token where
  kind : TokenKind
  position : Position
deriving DecidableEq

end EffectScript
