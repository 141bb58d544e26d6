import EffectScript.Proofs.Scanning

/-!
# Writing tokens out

Every token except a number with a point has a spelling that can be read back:
marks and reserved words as they are, an integer by its decimal digits, and a
string between quotes, with escapes for the five characters that need one.

Tokens are written out with trivia between them. When all trivia begin with a
blank, no two neighbours run together, so scanning the text gives the same
tokens again, whatever they are and whatever the comments between them say.
-/

namespace EffectScript

/-! ## Spellings -/

/-- How a character is written between the quotes of a string. -/
def quotedCharacter : Char → List Char
  | '\n' => ['\\', 'n']
  | '\t' => ['\\', 't']
  | '\r' => ['\\', 'r']
  | '\\' => ['\\', '\\']
  | '"' => ['\\', '"']
  | character => [character]

namespace TokenKind

/-- Whether the token can be written so that it is read back: an integer has no
sign of its own, and an identifier is a word that is not reserved. -/
def Writable : TokenKind → Prop
  | .keyword _ | .mark _ | .str _ => True
  | .int value => 0 ≤ value
  | .ident name =>
        (∃ letters : Lexer.Letters, name = String.ofList letters.characters) ∧
      ∀ word : Keyword, word.spelling ≠ name
  | .float _ | .endOfInput => False

/-- How the token is written. -/
def spelling : TokenKind → List Char
  | .keyword word => word.spelling.toList
  | .mark sign => sign.spelling.toList
  | .int value => Nat.toDigits 10 value.toInt.toNat
  | .ident name => name.toList
  | .str text => '"' :: (text.toList.flatMap quotedCharacter ++ ['"'])
  | .float _ | .endOfInput => []

end TokenKind

namespace Lexer

/-! ## Texts of tokens -/

/-- Blanks and comments in any order, each comment with the line feed that ends
it. -/
inductive Filler : List Char → Prop where
  | none : Filler []
  | blank {character : Char} {more : List Char}
      (separates : character ∈ [' ', '\t', '\r', '\n'])
      (others : Filler more) : Filler (character :: more)
  | comment {body more : List Char} (oneLine : '\n' ∉ body)
      (others : Filler more) :
      Filler ('/' :: '/' :: (body ++ '\n' :: more))

/-- Trivia that keep two tokens apart: a blank, and then any filler. -/
inductive Divides : List Char → Prop where
  | blank {character : Char} {more : List Char}
      (separates : character ∈ [' ', '\t', '\r', '\n'])
      (others : Filler more) : Divides (character :: more)

/-- The text writes the tokens out, with dividing trivia between any two of
them. -/
inductive Writes : List TokenKind → List Char → Prop where
  | none : Writes [] []
  | one (kind : TokenKind) : Writes [kind] kind.spelling
  | more (kind : TokenKind) {next : TokenKind} {kinds : List TokenKind}
      {gap text : List Char}
      (divides : Divides gap) (others : Writes (next :: kinds) text) :
      Writes (kind :: next :: kinds) (kind.spelling ++ (gap ++ text))

variable {text rest gap : List Char}

theorem Filler.trivia (filler : Filler gap) (rest : List Char) :
    Trivia gap rest := by
  induction filler with
  | none => exact .none rest
  | blank separates _ inner => exact .blank separates inner
  | comment oneLine _ inner =>
      refine .comment oneLine (fun next found => ?_) (.blank (by simp) inner)
      cases found
      rfl

theorem Divides.filler (divides : Divides gap) : Filler gap := by
  cases divides with
  | blank separates others => exact .blank separates others

/-! ## The form of a token -/

/-- The pieces that write a character. -/
theorem exists_piece (character : Char) :
    ∃ piece : Piece, piece.text = quotedCharacter character ∧
      piece.character = character := by
  unfold quotedCharacter
  split
  next => exact ⟨.escape 'n' '\n' (by simp [escapes]), rfl, rfl⟩
  next => exact ⟨.escape 't' '\t' (by simp [escapes]), rfl, rfl⟩
  next => exact ⟨.escape 'r' '\r' (by simp [escapes]), rfl, rfl⟩
  next => exact ⟨.escape '\\' '\\' (by simp [escapes]), rfl, rfl⟩
  next => exact ⟨.escape '"' '"' (by simp [escapes]), rfl, rfl⟩
  next noFeed _ _ noBackslash noQuote =>
    exact ⟨.plain character (by simp_all), rfl, rfl⟩

theorem exists_pieces_of_text (text : List Char) :
    ∃ pieces : List Piece,
      pieces.flatMap Piece.text = text.flatMap quotedCharacter ∧
      pieces.map Piece.character = text := by
  induction text with
  | nil => exact ⟨[], rfl, rfl⟩
  | cons character text inner =>
      obtain ⟨piece, written, means⟩ := exists_piece character
      obtain ⟨pieces, othersWritten, othersMean⟩ := inner
      exact ⟨piece :: pieces, by simp [written, othersWritten], by
        simp [means, othersMean]⟩

/-- The decimal digits of a number, as a run. -/
def digitsOf (number : Nat) : Run Char.isDigit where
  characters := Nat.toDigits 10 number
  nonempty := Nat.toDigits_ne_nil
  kept := fun _ member =>
    Nat.isDigit_of_mem_toDigits (by decide) (by decide) member

theorem readDigits_digitsOf (number : Nat) :
    Decimal.readDigits (digitsOf number).characters = number := by
  rw [Decimal.readDigits, ← Nat.ofDigitChars_eq_foldl]
  exact Nat.ofDigitChars_toDigits (by decide) (by decide)

theorem exists_letters_of_keyword (word : Keyword) :
    ∃ letters : Letters, letters.characters = word.spelling.toList := by
  have starts : ∃ first others, word.spelling.toList = first :: others ∧
      isWordStart first = true ∧ others.all isWordPart = true := by
    cases word <;> exact ⟨_, _, rfl, by decide, by decide⟩
  obtain ⟨first, others, spelled, wordStart, wordParts⟩ := starts
  refine ⟨⟨first, others, by simpa [isWordStart] using wordStart,
    fun letter member => ?_⟩, spelled.symm⟩
  simpa [isWordPart] using List.all_eq_true.1 wordParts letter member

/-- The spelling of a writable token is a lexeme that stands for it. -/
theorem exists_form {kind : TokenKind} (writable : kind.Writable) :
    ∃ form : Form, form.text = kind.spelling ∧ form.Means kind := by
  cases kind with
  | keyword word =>
      obtain ⟨letters, spelled⟩ := exists_letters_of_keyword word
      exact ⟨.word letters, spelled,
        .keyword letters word (by rw [spelled, String.ofList_toList])⟩
  | mark sign => exact ⟨.mark sign, rfl, .mark sign⟩
  | int value =>
      have natural : (value.toInt.toNat : Int) = value.toInt :=
        Int.toNat_of_nonneg (Int64.le_iff_toInt_le.1 writable)
      have bounded : value.toInt.toNat ≤ 2 ^ 63 - 1 := by
        have := value.toInt_lt
        omega
      refine ⟨.number (digitsOf value.toInt.toNat), rfl, ?_⟩
      have means := Form.Means.number (digitsOf value.toInt.toNat)
        (by rw [readDigits_digitsOf]; exact bounded)
      rwa [readDigits_digitsOf, natural, Int64.ofInt_toInt] at means
  | ident name =>
      obtain ⟨⟨letters, rfl⟩, free⟩ := writable
      exact ⟨.word letters, by simp [Form.text, TokenKind.spelling],
        .ident letters free⟩
  | str content =>
      obtain ⟨pieces, written, means⟩ := exists_pieces_of_text content.toList
      refine ⟨.quoted pieces, by
        simp [Form.text, TokenKind.spelling, written], ?_⟩
      have meaning := Form.Means.quoted pieces
      rwa [means, String.ofList_toList] at meaning
  | float _ => exact writable.elim
  | endOfInput => exact writable.elim

/-! ## Neighbours -/

/-- The text is empty or begins with a blank. -/
def Apart (rest : List Char) : Prop :=
  ∀ next ∈ rest.head?, isBlank next = true

theorem Divides.apart (divides : Divides gap) (text : List Char) :
    Apart (gap ++ text) := by
  cases divides with
  | blank separates _ =>
      rintro next ⟨⟩
      exact isBlank_eq_true.2 separates

/-- A class without blanks stops where a text is apart. -/
theorem Apart.stops
    (apart : Apart rest)
    {keeps : Char → Bool}
    (solid : [' ', '\t', '\r', '\n'].any keeps = false) :
    Stops keeps rest := by
  intro next found
  exact Bool.eq_false_iff.2
    (List.any_eq_false.1 solid next (isBlank_eq_true.1 (apart next found)))

theorem Apart.head?_ne
    (apart : Apart rest)
    {character : Char}
    (solid : isBlank character = false) :
    rest.head? ≠ some character := by
  intro found
  rw [apart character found] at solid
  cases solid

/-- Every lexeme ends where a text is apart. -/
theorem Apart.ends (apart : Apart rest) (form : Form) : form.Ends rest := by
  cases form with
  | mark sign => exact fun _ _ => apart.head?_ne (by decide)
  | number digits =>
      refine ⟨apart.stops (by decide), ?_⟩
      by_contra starts
      obtain ⟨digit, more, rfl, -⟩ :=
        startsFraction_eq_true (eq_true_of_ne_false starts)
      exact apart.head?_ne (by decide : isBlank '.' = false) rfl
  | decimal whole places => exact apart.stops (by decide)
  | word letters => exact apart.stops (by decide)
  | quoted pieces => exact trivial

/-- No lexeme begins a comment where a text is apart: the only one that begins
with a slash is the slash alone. -/
theorem Apart.noComment (apart : Apart rest) (form : Form) :
    ¬ ['/', '/'] <+: form.text ++ rest := by
  rintro ⟨more, split⟩
  obtain ⟨first, others, begins, sort⟩ := form.exists_first
  rw [begins] at split
  obtain ⟨rfl, behind⟩ := List.cons.inj split
  cases form with
  | mark sign =>
      obtain ⟨character, base, -, ⟨-, spelled⟩ | ⟨-, spelled⟩⟩ :=
        exists_character sign
      all_goals
        rw [show (Form.mark sign).text = sign.spelling.toList from rfl, spelled]
          at begins
        cases begins
      · obtain rfl : '/' :: more = rest := behind
        exact apart.head?_ne (by decide : isBlank '/' = false) rfl
      · cases behind
  | number _ | decimal _ _ | word _ | quoted _ => cases sort

/-! ## Whole texts -/

/-- A token in front of a text that splits, where the two are apart. -/
theorem splits_spelling {kind : TokenKind}
    (writable : kind.Writable)
    {before : List Char}
    (filler : Filler gap) (apart : Apart rest)
    {tokens : List Token}
    (others : Splits (before ++ gap ++ kind.spelling) rest tokens) :
    Splits before (gap ++ (kind.spelling ++ rest))
      (⟨kind, placeAfter (before ++ gap)⟩ :: tokens) := by
  obtain ⟨form, spelled, means⟩ := exists_form writable
  rw [← spelled] at others ⊢
  exact .lexeme (filler.trivia _) (apart.noComment form)
    (apart.ends form).longest means others

/-- A text that writes tokens out splits into their lexemes, also behind more
trivia. -/
theorem Writes.splits {kinds : List TokenKind}
    (writes : Writes kinds text)
    (writable : ∀ kind ∈ kinds, kind.Writable)
    (before : List Char)
    {gap : List Char}
    (filler : Filler gap) :
    ∃ tokens, Splits before (gap ++ text) tokens ∧
      tokens.map Token.kind = kinds ++ [.endOfInput] := by
  induction writes generalizing before gap with
  | none =>
      rw [List.append_nil]
      exact ⟨_, .done before (filler.trivia []), rfl⟩
  | one kind =>
      have last := splits_spelling (writable kind List.mem_cons_self) filler
        (by simp [Apart]) (.done (before ++ gap ++ kind.spelling) (.none []))
      rw [List.append_nil] at last
      exact ⟨_, last, rfl⟩
  | @more kind next kinds between text divides others inner =>
      obtain ⟨tokens, splits, same⟩ := inner
        (fun other member => writable other (List.mem_cons_of_mem _ member))
        (before ++ gap ++ kind.spelling) divides.filler
      refine ⟨⟨kind, placeAfter (before ++ gap)⟩ :: tokens, ?_,
        congrArg (kind :: ·) same⟩
      exact splits_spelling (writable kind List.mem_cons_self) filler
        (divides.apart text) splits

end Lexer

/-- Tokens that are written out with trivia between them, each beginning with a
blank, are scanned back: exactly these tokens, and then the end of the input. -/
theorem scan_of_writes {kinds : List TokenKind}
    {text : List Char}
    (writable : ∀ kind ∈ kinds, kind.Writable)
    (writes : Lexer.Writes kinds text) :
    ∃ tokens, Token.scan (String.ofList text) = .ok tokens ∧
      tokens.map Token.kind = kinds ++ [.endOfInput] := by
  obtain ⟨tokens, splits, same⟩ := writes.splits writable [] .none
  refine ⟨tokens, ?_, same⟩
  have scanned := splits.scan
  rwa [List.nil_append, ← String.toList_ofList (l := text)] at scanned

/-- Neighbours that would run together, a comment that looks like code, the
greatest integer, and a string of characters that need escapes. -/
theorem scan_of_writes_neighbours :
    ∃ tokens,
      Token.scan
        "= =\t//= \"==\n\r/ / 9223372036854775807 fnif \"\\\"\\\\//\\nλ\" if"
        = .ok tokens ∧
        tokens.map Token.kind =
          [.mark .assign, .mark .assign, .mark .slash, .mark .slash,
            .int 9223372036854775807, .ident "fnif", .str "\"\\//\nλ",
            .keyword .branch, .endOfInput] := by
  have space : Lexer.Divides [' '] := .blank (by decide) .none
  have comment : Lexer.Divides "\t//= \"==\n\r".toList :=
    .blank (by decide) (@Lexer.Filler.comment "= \"==".toList _ (by decide)
      (.blank (by decide) .none))
  have letters : ∀ letter ∈ ['n', 'i', 'f'], letter.isAlphanum = true ∨
      letter = '_' := by simp
  have word : TokenKind.Writable (.ident "fnif") :=
    ⟨⟨⟨'f', ['n', 'i', 'f'], by decide, letters⟩, rfl⟩,
      by intro word; cases word <;> decide⟩
  have writable :
      ∀ kind ∈ [.mark .assign, .mark .assign, .mark .slash, .mark .slash,
          .int 9223372036854775807, .ident "fnif", .str "\"\\//\nλ",
          .keyword .branch],
        TokenKind.Writable kind := by
    simp only [List.forall_mem_cons]
    have natural : (0 : Int64) ≤ 9223372036854775807 := by decide
    exact ⟨trivial, trivial, trivial, trivial, natural, word, trivial,
      trivial, by simp⟩
  exact scan_of_writes writable
    (.more _ space (.more _ comment (.more _ space (.more _ space
    (.more _ space (.more _ space (.more _ space (.one _))))))))

end EffectScript
