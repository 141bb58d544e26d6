import EffectScript.Integer
import EffectScript.Token.Error

/-!
# From characters to tokens

A source text is a sequence of lexemes with trivia between them. Trivia are
blanks, tabs, carriage returns, line feeds and comments, which run from `//` to
the end of their line. A lexeme is always the longest one at its place.
-/

namespace EffectScript.Lexer

/-- Whether the character separates lexemes. -/
def isBlank (character : Char) : Bool :=
  character = ' ' || character = '\t' || character = '\r' || character = '\n'

/-- Whether a word can begin with the character. -/
def isWordStart (character : Char) : Bool :=
  character.isAlpha || character = '_'

/-- Whether a word can go on with the character. -/
def isWordPart (character : Char) : Bool :=
  character.isAlphanum || character = '_'

/-- Skips the trivia at the front of a text; `inComment` tells whether the text
goes on in a comment. Gives the place and the text after them. -/
def skipTrivia (inComment : Bool) (position : Position) :
    List Char → Position × List Char
  | [] => (position, [])
  | character :: rest =>
      if inComment then
        skipTrivia (character ≠ '\n') (position.advance character) rest
      else if isBlank character then
        skipTrivia false (position.advance character) rest
      else if character = '/' ∧ rest.head? = some '/' then
        skipTrivia true (position.advance character) rest
      else (position, character :: rest)

/-- A lexeme with the place and the text after it. -/
structure Lexeme where
  kind : TokenKind
  next : Position
  rest : List Char

/-- The character that an escape letter stands for. -/
def unescape? (letter : Char) : Option Char :=
  match letter with
  | 'n' => some '\n'
  | 't' => some '\t'
  | 'r' => some '\r'
  | '\\' => some '\\'
  | '"' => some '"'
  | _ => none

/-- Reads a string literal from behind its opening quote; `done` holds the
characters read so far, the last one first. -/
def readString (position : Position) (done : List Char) :
    List Char → Except SourceError Lexeme
  | [] => .error ⟨.unterminatedString, position⟩
  | character :: rest =>
      if character = '"' then
        .ok ⟨.str (String.ofList done.reverse), position.right 1, rest⟩
      else if character = '\\' then
        match rest with
        | [] => .error ⟨.unterminatedString, position.right 1⟩
        | letter :: afterLetter =>
            match unescape? letter with
            | some escaped => readString (position.right 2)
                (escaped :: done) afterLetter
            | none => .error ⟨.invalidEscape letter, position.right 1⟩
      else if character = '\n' then
        .error ⟨.lineFeedInString, position⟩
      else readString (position.right 1) (character :: done) rest

/-- Whether a text goes on with a point and a digit. -/
def startsFraction : List Char → Bool
  | '.' :: digit :: _ => digit.isDigit
  | _ => false

/-- Reads a number literal. A point belongs to it only when a digit follows. -/
def readNumber (position : Position) (text : List Char) :
    Except SourceError Lexeme :=
  let whole := text.takeWhile Char.isDigit
  let afterWhole := text.dropWhile Char.isDigit
  if startsFraction afterWhole then
    let places := (afterWhole.drop 1).takeWhile Char.isDigit
    let rest := (afterWhole.drop 1).dropWhile Char.isDigit
    .ok ⟨.float (Decimal.ofPlaces whole places),
      position.right (whole.length + 1 + places.length), rest⟩
  else
    match Integer.ofInt? (Decimal.readDigits whole) with
    | some value => .ok ⟨.int value, position.right whole.length, afterWhole⟩
    | none => .error ⟨.integerOutOfRange (String.ofList whole),
        position.right whole.length⟩

/-- Reads a reserved word or an identifier. -/
def readWord (position : Position) (text : List Char) : Lexeme :=
  let word := text.takeWhile isWordPart
  let kind :=
    match Keyword.ofSpelling? (String.ofList word) with
    | some keyword => .keyword keyword
    | none => .ident (String.ofList word)
  ⟨kind, position.right word.length, text.dropWhile isWordPart⟩

/-- Reads a mark; an equals sign right after it belongs to it where such a mark
exists. -/
def readMark (position : Position) (mark : Mark) (rest : List Char) : Lexeme :=
  match mark.withEquals?, rest with
  | some longer, '=' :: afterEquals =>
      ⟨.mark longer, position.right 2, afterEquals⟩
  | _, _ => ⟨.mark mark, position.right 1, rest⟩

/-- Reads the lexeme that begins with the given character. -/
def readLexeme (position : Position) (first : Char) (rest : List Char) :
    Except SourceError Lexeme :=
  match Mark.ofCharacter? first with
  | some mark => .ok (readMark position mark rest)
  | none =>
      if first = '"' then readString (position.right 1) [] rest
      else if first.isDigit then readNumber position (first :: rest)
      else if isWordStart first then .ok (readWord position (first :: rest))
      else .error ⟨.unexpectedCharacter first, position⟩

/-! ## Every lexeme takes at least one character -/

theorem length_skipTrivia_le
    (inComment : Bool) (position : Position) (text : List Char) :
    (skipTrivia inComment position text).2.length ≤ text.length := by
  induction text generalizing inComment position with
  | nil => simp [skipTrivia]
  | cons character rest shorter =>
      simp only [skipTrivia]
      split
      · exact Nat.le_succ_of_le (shorter _ _)
      · split
        · exact Nat.le_succ_of_le (shorter _ _)
        · split
          · exact Nat.le_succ_of_le (shorter _ _)
          · simp

theorem length_dropWhile_le (keeps : Char → Bool) (text : List Char) :
    (text.dropWhile keeps).length ≤ text.length :=
  (List.dropWhile_sublist keeps).length_le

theorem length_readString_le {position : Position}
    {done text : List Char} {lexeme : Lexeme}
    (read : readString position done text = .ok lexeme) :
    lexeme.rest.length ≤ text.length := by
  fun_induction readString position done text <;> simp_all <;> try omega
  all_goals (subst read; simp)

theorem length_dropWhile_lt {keeps : Char → Bool}
    {first : Char}
    (kept : keeps first = true)
    (rest : List Char) :
    ((first :: rest).dropWhile keeps).length < (first :: rest).length := by
  simp only [List.dropWhile_cons, kept, if_true, List.length_cons]
  exact Nat.lt_succ_of_le (length_dropWhile_le keeps rest)

theorem length_readMark_le
    (position : Position) (mark : Mark) (rest : List Char) :
    (readMark position mark rest).rest.length ≤ rest.length := by
  unfold readMark
  split <;> simp

theorem length_readNumber_lt {position : Position}
    {first : Char} {rest : List Char} {lexeme : Lexeme}
    (digit : first.isDigit = true)
    (read : readNumber position (first :: rest) = .ok lexeme) :
    lexeme.rest.length < (first :: rest).length := by
  have shorter := @length_dropWhile_lt Char.isDigit first digit rest
  unfold readNumber at read
  simp only at read
  split at read
  · cases read
    have inner := length_dropWhile_le Char.isDigit
      (((first :: rest).dropWhile Char.isDigit).drop 1)
    have dropped : (((first :: rest).dropWhile Char.isDigit).drop 1).length ≤
        ((first :: rest).dropWhile Char.isDigit).length := by simp
    exact Nat.lt_of_le_of_lt (Nat.le_trans inner dropped) shorter
  · split at read
    · cases read
      exact shorter
    · cases read

theorem isWordPart_of_isWordStart {character : Char}
    (starts : isWordStart character = true) :
    isWordPart character = true := by
  unfold isWordStart at starts
  unfold isWordPart Char.isAlphanum
  simp only [Bool.or_eq_true] at starts ⊢
  rcases starts with alpha | underscore
  · exact Or.inl (Or.inl alpha)
  · exact Or.inr underscore

/-- A lexeme leaves less text than it began with. -/
theorem length_readLexeme_lt {position : Position}
    {first : Char} {rest : List Char} {lexeme : Lexeme}
    (read : readLexeme position first rest = .ok lexeme) :
    lexeme.rest.length < (first :: rest).length := by
  unfold readLexeme at read
  split at read
  · cases read
    exact Nat.lt_succ_of_le (length_readMark_le position _ rest)
  · split at read
    · exact Nat.lt_succ_of_le (length_readString_le read)
    · split at read
      next digit => exact length_readNumber_lt digit read
      next =>
        split at read
        next starts =>
          cases read
          exact length_dropWhile_lt (isWordPart_of_isWordStart starts) rest
        next => cases read

/-! ## Whole texts -/

/-- The lexeme after the trivia at the front of a text leaves less than that
text. -/
theorem length_rest_lt {position here : Position}
    {text rest : List Char} {first : Char} {lexeme : Lexeme}
    (trivia : skipTrivia false position text = (here, first :: rest))
    (read : readLexeme here first rest = .ok lexeme) :
    lexeme.rest.length < text.length := by
  have skipped := length_skipTrivia_le false position text
  rw [trivia] at skipped
  exact Nat.lt_of_lt_of_le (length_readLexeme_lt read) skipped

/-- The tokens of a text that begins at the given place. -/
def scanFrom (position : Position) (text : List Char) :
    Except SourceError (List Token) :=
  match trivia : skipTrivia false position text with
  | (here, []) => .ok [⟨.endOfInput, here⟩]
  | (here, first :: rest) =>
      match read : readLexeme here first rest with
      | .error error => .error error
      | .ok lexeme =>
          have : lexeme.rest.length < text.length := length_rest_lt trivia read
          match scanFrom lexeme.next lexeme.rest with
          | .error error => .error error
          | .ok tokens => .ok (⟨lexeme.kind, here⟩ :: tokens)
termination_by text.length

end EffectScript.Lexer

namespace EffectScript

/-- The tokens of a source text, closed by the end of the input. -/
def Token.scan (source : String) : Except SourceError (List Token) :=
  Lexer.scanFrom Position.start source.toList

end EffectScript
