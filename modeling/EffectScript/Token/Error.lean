import EffectScript.Token

/-!
# Errors of a source text

A source text is refused for one problem at one place. The wording of every
problem is given here and nowhere else.
-/

namespace EffectScript

/-- What the grammar wants at a place. -/
inductive Expectation where
  | mark (sign : Mark)
  | identifier
  | expression
  | handleClause

/-- The wording of an expectation. -/
def Expectation.text : Expectation → String
  | .mark sign => "'" ++ sign.spelling ++ "'"
  | .identifier => "identifier"
  | .expression => "expression"
  | .handleClause => "'handle' after try block"

/-- Why a source text is refused. -/
inductive SourceProblem where
  | unexpectedCharacter (character : Char)
  | integerOutOfRange (digits : String)
  | unterminatedString
  | lineFeedInString
  | invalidEscape (character : Char)
  /-- The grammar wants something else than the token found; `none` is the end
  of the input. -/
  | expected (wanted : Expectation) (found : Option TokenKind)
  /-- The text nests deeper than its number of tokens allows for. -/
  | nestedTooDeep

/-- The wording of a problem. -/
def SourceProblem.message : SourceProblem → String
  | .unexpectedCharacter character =>
      "unexpected character '" ++ character.toString ++ "'"
  | .integerOutOfRange digits =>
      "integer literal '" ++ digits ++ "' out of range"
  | .unterminatedString => "unterminated string"
  | .lineFeedInString => "unterminated string (newline in string)"
  | .invalidEscape character =>
      "invalid escape sequence '\\" ++ character.toString ++ "'"
  | .expected wanted found =>
      let description :=
        match found with
        | some kind => kind.label
        | none => "end of input"
      "expected " ++ wanted.text ++ ", found " ++ description
  | .nestedTooDeep => "nested too deep"

/-- A problem of a source text and its place. -/
structure SourceError where
  problem : SourceProblem
  position : Position

/-- The wording of an error, followed by the place in the named file. -/
def SourceError.message (error : SourceError) (file : String) : String :=
  error.problem.message ++ "\n  --> " ++ file ++ ":" ++
    toString error.position.line ++ ":" ++
    toString error.position.column

end EffectScript
