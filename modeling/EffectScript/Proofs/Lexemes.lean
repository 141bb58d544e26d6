import EffectScript.Token.Lexer
import Mathlib

/-!
# Lexemes

A lexeme is a mark, a run of digits, two such runs with a point between them, a
word, or a string literal that is closed on its line. The first section says
which texts are lexemes and which token each of them stands for, without saying
how they are found in a text.

What a text begins with is read correctly when it is the *longest* lexeme there.
That speaks of all the lexemes that might be read; it comes down to a condition
on the one or two characters behind the lexeme, and these are what the reading
looks at.
-/

namespace EffectScript.Lexer

/-! ## The texts of lexemes -/

/-- A run of characters of one class, at least one of them. -/
structure Run (keeps : Char → Bool) where
  characters : List Char
  nonempty : characters ≠ []
  kept : ∀ character ∈ characters, keeps character = true

/-- The characters of a word: a letter or an underscore, and then letters,
digits and underscores. -/
structure Letters where
  first : Char
  others : List Char
  starts : first.isAlpha = true ∨ first = '_'
  goesOn : ∀ letter ∈ others, letter.isAlphanum = true ∨ letter = '_'

/-- The characters of a word in a row. -/
def Letters.characters (letters : Letters) : List Char :=
  letters.first :: letters.others

/-- The escape letters, each with the character that it stands for. -/
def escapes : List (Char × Char) :=
  [('n', '\n'), ('t', '\t'), ('r', '\r'), ('\\', '\\'), ('"', '"')]

/-- One character of a string literal in the way it is written. -/
inductive Piece where
  | plain (character : Char) (allowed : character ∉ ['"', '\\', '\n'])
  | escape (letter character : Char) (known : (letter, character) ∈ escapes)

namespace Piece

/-- How the character is written. -/
def text : Piece → List Char
  | .plain character _ => [character]
  | .escape letter _ _ => ['\\', letter]

/-- The character that is written. -/
def character : Piece → Char
  | .plain character _ => character
  | .escape _ character _ => character

theorem ne_lineFeed_of_mem (piece : Piece) :
    ∀ character ∈ piece.text, character ≠ '\n' := by
  intro character member
  rintro rfl
  cases piece with
  | plain _ allowed =>
      cases List.mem_singleton.1 member
      exact allowed (by simp)
  | escape letter value known =>
      simp only [text, List.mem_cons] at member
      rcases member with feed | rfl | none
      · cases feed
      · simp [escapes] at known
      · cases none

end Piece

/-- A lexeme in the way it is written. -/
inductive Form where
  | mark (sign : Mark)
  | number (digits : Run Char.isDigit)
  | decimal (whole places : Run Char.isDigit)
  | word (letters : Letters)
  | quoted (pieces : List Piece)

namespace Form

/-- The text of a lexeme. -/
def text : Form → List Char
  | .mark sign => sign.spelling.toList
  | .number digits => digits.characters
  | .decimal whole places => whole.characters ++ '.' :: places.characters
  | .word letters => letters.characters
  | .quoted pieces => '"' :: (pieces.flatMap Piece.text ++ ['"'])

/-- The token that a lexeme stands for. A run of digits beyond the greatest
integer stands for none. -/
inductive Means : Form → TokenKind → Prop where
  | mark (sign : Mark) : Means (.mark sign) (.mark sign)
  | number (digits : Run Char.isDigit)
      (bounded : Decimal.readDigits digits.characters ≤ 2 ^ 63 - 1) :
      Means (.number digits)
        (.int (Int64.ofInt (Decimal.readDigits digits.characters)))
  | decimal (whole places : Run Char.isDigit) :
      Means (.decimal whole places)
        (.float (Decimal.ofPlaces whole.characters places.characters))
  | keyword (letters : Letters) (word : Keyword)
      (reserved : word.spelling = String.ofList letters.characters) :
      Means (.word letters) (.keyword word)
  | ident (letters : Letters)
      (free : ∀ word : Keyword,
        word.spelling ≠ String.ofList letters.characters) :
      Means (.word letters) (.ident (String.ofList letters.characters))
  | quoted (pieces : List Piece) :
      Means (.quoted pieces) (.str (String.ofList (pieces.map Piece.character)))

/-- No lexeme at the front of the same text is longer. -/
def Longest (form : Form) (rest : List Char) : Prop :=
  ∀ other : Form, other.text <+: form.text ++ rest →
    other.text.length ≤ form.text.length

end Form

/-! ## Runs of characters -/

/-- The text does not go on with a character of the class. -/
def Stops (keeps : Char → Bool) (rest : List Char) : Prop :=
  ∀ next ∈ rest.head?, keeps next = false

variable {keeps : Char → Bool} {first : Char} {text rest : List Char}
    {position : Position}

theorem stops_cons {next : Char} :
    Stops keeps (next :: rest) ↔ keeps next = false := by
  simp [Stops]

theorem stops_point (rest : List Char) : Stops Char.isDigit ('.' :: rest) :=
  stops_cons.2 rfl

theorem stops_dropWhile (keeps : Char → Bool) (text : List Char) :
    Stops keeps (text.dropWhile keeps) := by
  intro next found
  have stopped := List.head?_dropWhile_not keeps text
  rw [Option.mem_def.1 found] at stopped
  simpa using stopped

namespace Run

theorem takeWhile_append (run : Run keeps) (stops : Stops keeps rest) :
    (run.characters ++ rest).takeWhile keeps = run.characters := by
  rw [List.takeWhile_append_of_pos run.kept]
  cases rest with
  | nil => simp
  | cons next rest => simp [stops_cons.1 stops]

theorem dropWhile_append (run : Run keeps) (stops : Stops keeps rest) :
    (run.characters ++ rest).dropWhile keeps = rest := by
  rw [List.dropWhile_append_of_pos run.kept]
  cases rest with
  | nil => rfl
  | cons next rest => simp [stops_cons.1 stops]

/-- A run does not reach beyond a place where its class stops. -/
theorem length_le
    (run : Run keeps)
    (within : run.characters <+: text ++ rest)
    (stops : Stops keeps rest) :
    run.characters.length ≤ text.length := by
  by_contra longer
  obtain ⟨more, split⟩ : text <+: run.characters :=
    List.prefix_of_prefix_length_le (List.prefix_append text rest)
      within (by omega)
  cases more with
  | nil => simp [← split] at longer
  | cons next more =>
      rw [← split, List.prefix_append_right_inj] at within
      obtain ⟨after, rfl⟩ := within
      have kept := run.kept next (by simp [← split])
      rw [stops_cons.1 stops] at kept
      cases kept

theorem exists_cons (run : Run keeps) :
    ∃ first others, run.characters = first :: others ∧ keeps first = true := by
  obtain ⟨first, others, split⟩ := List.exists_cons_of_ne_nil run.nonempty
  exact ⟨first, others, split, run.kept first (by simp [split])⟩

/-- The run of a class at the front of a text. -/
def front (kept : keeps first = true) (rest : List Char) : Run keeps where
  characters := (first :: rest).takeWhile keeps
  nonempty := by simp [kept]
  kept := List.all_eq_true.1 List.all_takeWhile

theorem front_append (kept : keeps first = true) (rest : List Char) :
    (front kept rest).characters ++ (first :: rest).dropWhile keeps =
      first :: rest :=
  List.takeWhile_append_dropWhile

/-- The run with one more character. -/
def push (run : Run keeps) (last : Char) (kept : keeps last = true) :
    Run keeps where
  characters := run.characters ++ [last]
  nonempty := by simp
  kept := by
    intro character member
    rcases List.mem_append.1 member with inside | isLast
    · exact run.kept character inside
    · exact List.mem_singleton.1 isLast ▸ kept

end Run

namespace Letters

theorem isWordStart_first (letters : Letters) :
    isWordStart letters.first = true := by
  simpa [isWordStart] using letters.starts

/-- The characters of a word as a run. -/
def run (letters : Letters) : Run isWordPart where
  characters := letters.characters
  nonempty := List.cons_ne_nil _ _
  kept := by
    intro letter member
    rcases List.mem_cons.1 member with rfl | behind
    · exact isWordPart_of_isWordStart letters.isWordStart_first
    · simpa [isWordPart] using letters.goesOn letter behind

/-- The word with one more character. -/
def push (letters : Letters) (last : Char) (part : isWordPart last = true) :
    Letters where
  first := letters.first
  others := letters.others ++ [last]
  starts := letters.starts
  goesOn := by
    intro letter member
    rcases List.mem_append.1 member with inside | isLast
    · exact letters.goesOn letter inside
    · cases List.mem_singleton.1 isLast
      simpa [isWordPart] using part

/-- The word at the front of a text. -/
def front (starts : isWordStart first = true) (rest : List Char) : Letters where
  first := first
  others := rest.takeWhile isWordPart
  starts := by simpa [isWordStart] using starts
  goesOn := by
    intro letter member
    simpa [isWordPart] using List.all_eq_true.1 List.all_takeWhile letter member

end Letters

/-! ## The first character -/

/-- The sorts of lexemes that the first character tells apart. -/
inductive Family where
  | mark
  | quoted
  | number
  | word

/-- The sort of the lexemes that begin with the character. -/
def Family.ofFirst? (character : Char) : Option Family :=
  if (Mark.ofCharacter? character).isSome then some .mark
  else if character = '"' then some .quoted
  else if character.isDigit then some .number
  else if isWordStart character then some .word
  else none

theorem isWordPart_of_isDigit (digit : first.isDigit = true) :
    isWordPart first = true := by
  simp [isWordPart, Char.isAlphanum, digit]

theorem isDigit_eq_false_of_isWordStart (starts : isWordStart first = true) :
    first.isDigit = false := by
  rcases Bool.or_eq_true _ _ ▸ starts with alpha | underscore
  · grind [Char.isAlpha, Char.isUpper, Char.isLower, Char.isDigit]
  · rw [of_decide_eq_true underscore]
    decide

theorem ofCharacter?_of_isWordPart (part : isWordPart first = true) :
    Mark.ofCharacter? first = none := by
  unfold Mark.ofCharacter?
  split
  all_goals first | rfl | exact absurd part (by decide)

theorem ne_quote_of_isWordPart (part : isWordPart first = true) :
    first ≠ '"' := by
  rintro rfl
  exact absurd part (by decide)

theorem ne_lineFeed_of_isWordPart (part : isWordPart first = true) :
    first ≠ '\n' := by
  rintro rfl
  exact absurd part (by decide)

namespace Family

theorem ofFirst?_mark {mark : Mark}
    (marks : Mark.ofCharacter? first = some mark) :
    ofFirst? first = some .mark := by
  simp [ofFirst?, marks]

theorem ofFirst?_digit (digit : first.isDigit = true) :
    ofFirst? first = some .number := by
  have part := isWordPart_of_isDigit digit
  simp [ofFirst?, ofCharacter?_of_isWordPart part,
    ne_quote_of_isWordPart part, digit]

theorem ofFirst?_wordStart (starts : isWordStart first = true) :
    ofFirst? first = some .word := by
  have part := isWordPart_of_isWordStart starts
  simp [ofFirst?, ofCharacter?_of_isWordPart part, ne_quote_of_isWordPart part,
    isDigit_eq_false_of_isWordStart starts, starts]

theorem ofFirst?_blank (separates : isBlank first = true) :
    ofFirst? first = none := by
  simp only [isBlank, Bool.or_eq_true, decide_eq_true_eq] at separates
  rcases separates with ((rfl | rfl) | rfl) | rfl <;> rfl

end Family

/-- A mark is made by one character, or by one character and an equals sign. -/
theorem exists_character (sign : Mark) :
    ∃ character base, Mark.ofCharacter? character = some base ∧
      (sign = base ∧ sign.spelling.toList = [character] ∨
        base.withEquals? = some sign ∧
        sign.spelling.toList = [character, '=']) := by
  cases sign
  all_goals first
    | exact ⟨_, _, rfl, .inl ⟨rfl, rfl⟩⟩
    | exact ⟨_, _, rfl, .inr ⟨rfl, rfl⟩⟩

namespace Form

/-- The sort of a lexeme. -/
def family : Form → Family
  | .mark _ => .mark
  | .number _ => .number
  | .decimal _ _ => .number
  | .word _ => .word
  | .quoted _ => .quoted

/-- The first character of a lexeme tells its sort. -/
theorem exists_first (form : Form) :
    ∃ first others, form.text = first :: others ∧
      Family.ofFirst? first = some form.family := by
  cases form with
  | mark sign =>
      obtain ⟨character, base, marks, ⟨-, spelled⟩ | ⟨-, spelled⟩⟩ :=
        exists_character sign
      all_goals exact ⟨character, _, spelled, Family.ofFirst?_mark marks⟩
  | number digits =>
      obtain ⟨digit, others, begins, isDigit⟩ := digits.exists_cons
      exact ⟨digit, others, begins, Family.ofFirst?_digit isDigit⟩
  | decimal whole places =>
      obtain ⟨digit, others, begins, isDigit⟩ := whole.exists_cons
      exact ⟨digit, _, congrArg (· ++ '.' :: places.characters) begins,
        Family.ofFirst?_digit isDigit⟩
  | word letters =>
      exact ⟨_, _, rfl, Family.ofFirst?_wordStart letters.isWordStart_first⟩
  | quoted pieces => exact ⟨'"', _, rfl, rfl⟩

/-- Lexemes at the same place are of the same sort. -/
theorem family_eq {form other : Form}
    (within : other.text <+: form.text ++ rest) :
    other.family = form.family := by
  obtain ⟨first, others, begins, sort⟩ := form.exists_first
  obtain ⟨otherFirst, _, otherBegins, otherSort⟩ := other.exists_first
  rw [begins, otherBegins, List.cons_append, List.cons_prefix_cons] at within
  rw [within.1, sort] at otherSort
  exact (Option.some.inj otherSort).symm

/-- A lexeme does not begin with a blank. -/
theorem isBlank_first {form : Form}
    (found : first ∈ (form.text ++ rest).head?) :
    isBlank first = false := by
  obtain ⟨character, others, begins, sort⟩ := form.exists_first
  rw [begins] at found
  cases found
  by_contra separates
  rw [Family.ofFirst?_blank (eq_true_of_ne_false separates)] at sort
  cases sort

/-- A lexeme is on one line. -/
theorem ne_lineFeed_of_mem (form : Form) :
    ∀ character ∈ form.text, character ≠ '\n' := by
  intro character member
  cases form with
  | mark sign =>
      rintro rfl
      revert member
      cases sign <;> decide
  | number digits =>
      exact ne_lineFeed_of_isWordPart
        (isWordPart_of_isDigit (digits.kept character member))
  | decimal whole places =>
      rcases List.mem_append.1 member with inWhole | behind
      · exact ne_lineFeed_of_isWordPart
          (isWordPart_of_isDigit (whole.kept character inWhole))
      · rcases List.mem_cons.1 behind with rfl | inPlaces
        · decide
        · exact ne_lineFeed_of_isWordPart
            (isWordPart_of_isDigit (places.kept character inPlaces))
  | word letters =>
      exact ne_lineFeed_of_isWordPart (letters.run.kept character member)
  | quoted pieces =>
      simp only [text, List.mem_cons, List.mem_append, List.mem_flatMap]
        at member
      rcases member with rfl | ⟨piece, -, written⟩ | rfl | none
      · decide
      · exact piece.ne_lineFeed_of_mem character written
      · decide
      · cases none

/-- Where the next place is after a lexeme. -/
theorem after_text (form : Form) (position : Position) :
    position.after form.text = position.right form.text.length :=
  position.after_eq_right form.text form.ne_lineFeed_of_mem

/-! ## What follows a lexeme -/

/-- The lexeme does not go on with the rest of the text. -/
def Ends : Form → List Char → Prop
  | .mark sign, rest => ∀ longer, sign.withEquals? = some longer →
      rest.head? ≠ some '='
  | .number _, rest => Stops Char.isDigit rest ∧ startsFraction rest = false
  | .decimal _ _, rest => Stops Char.isDigit rest
  | .word _, rest => Stops isWordPart rest
  | .quoted _, _ => True

/-- A longest lexeme does not make a longer one with what follows it. -/
theorem Longest.eq_nil {form : Form}
    (longest : form.Longest rest)
    (other : Form)
    {more : List Char}
    (grown : other.text = form.text ++ more)
    (follows : more <+: rest) :
    more = [] := by
  have bounded := longest other
    (by rw [grown]; exact List.prefix_append_right_inj _ |>.2 follows)
  rw [grown, List.length_append] at bounded
  exact List.length_eq_zero_iff.1 (by omega)

end Form

theorem spelling_withEquals {sign longer : Mark}
    (grows : sign.withEquals? = some longer) :
    longer.spelling.toList = sign.spelling.toList ++ ['='] := by
  cases sign <;> cases grows <;> rfl

theorem startsFraction_eq_true (starts : startsFraction rest = true) :
    ∃ digit more, rest = '.' :: digit :: more ∧ digit.isDigit = true := by
  unfold startsFraction at starts
  split at starts
  next digit more => exact ⟨digit, more, rfl, starts⟩
  next => cases starts

theorem Stops.of_longest {form : Form}
    (longest : form.Longest rest)
    (grow : ∀ next, keeps next = true → ∃ other : Form,
      other.text = form.text ++ [next]) :
    Stops keeps rest := by
  intro next found
  by_contra kept
  obtain ⟨other, grown⟩ := grow next (eq_true_of_ne_false kept)
  cases rest with
  | nil => cases found
  | cons _ more =>
      cases found
      cases longest.eq_nil other grown (List.prefix_append [next] more)

namespace Form

theorem Longest.ends {form : Form} (longest : form.Longest rest) :
    form.Ends rest := by
  cases form with
  | mark sign =>
      intro longer grows found
      obtain ⟨more, rfl⟩ := List.head?_eq_some_iff.1 found
      cases longest.eq_nil (.mark longer) (spelling_withEquals grows)
        (List.prefix_append ['='] more)
  | number digits =>
      constructor
      · exact .of_longest longest fun next digit =>
          ⟨.number (digits.push next digit), rfl⟩
      · by_contra fraction
        obtain ⟨digit, more, rfl, isDigit⟩ :=
          startsFraction_eq_true (eq_true_of_ne_false fraction)
        have grown : (decimal digits (.front isDigit [])).text =
            (number digits).text ++ ['.', digit] := by
          simp [text, Run.front, isDigit]
        cases longest.eq_nil _ grown (List.prefix_append ['.', digit] more)
  | decimal whole places =>
      exact .of_longest longest fun next digit =>
        ⟨.decimal whole (places.push next digit), by simp [text, Run.push]⟩
  | word letters =>
      exact .of_longest longest fun next part =>
        ⟨.word (letters.push next part), rfl⟩
  | quoted pieces => trivial

end Form

/-! ## String literals -/

theorem right_right (position : Position) (early late : Nat) :
    (position.right early).right late = position.right (early + late) := by
  simp [Position.right, Nat.add_assoc]

theorem unescape?_eq_some {letter value : Char} :
    unescape? letter = some value ↔ (letter, value) ∈ escapes := by
  unfold unescape?
  split <;> simp_all [escapes, eq_comm]

theorem readString_quote (position : Position) (done rest : List Char) :
    readString position done ('"' :: rest) =
      .ok ⟨.str (String.ofList done.reverse), position.right 1, rest⟩ := by
  rw [readString.eq_def]
  simp

theorem readString_plain {character : Char}
    (allowed : character ∉ ['"', '\\', '\n'])
    (position : Position) (done rest : List Char) :
    readString position done (character :: rest) =
      readString (position.right 1) (character :: done) rest := by
  simp only [List.mem_cons, List.not_mem_nil, or_false, not_or] at allowed
  obtain ⟨noQuote, noEscape, noFeed⟩ := allowed
  rw [readString.eq_def]
  simp [noQuote, noEscape, noFeed]

theorem readString_escape {letter value : Char}
    (known : (letter, value) ∈ escapes)
    (position : Position) (done rest : List Char) :
    readString position done ('\\' :: letter :: rest) =
      readString (position.right 2) (value :: done) rest := by
  rw [readString.eq_def]
  simp [unescape?_eq_some.2 known]

/-- A string literal that is closed on its line is read up to its closing
quote. -/
theorem readString_pieces (pieces : List Piece) (position : Position)
    (done rest : List Char) :
    readString position done (pieces.flatMap Piece.text ++ '"' :: rest) =
      .ok ⟨.str (String.ofList (done.reverse ++ pieces.map Piece.character)),
        position.right ((pieces.flatMap Piece.text).length + 1), rest⟩ := by
  induction pieces generalizing position done with
  | nil => simpa using readString_quote position done rest
  | cons piece pieces inner =>
      cases piece with
      | plain character allowed =>
          simp only [List.flatMap_cons, Piece.text, List.cons_append,
            List.nil_append]
          rw [readString_plain allowed, inner, right_right, List.length_cons,
            Nat.add_comm 1, Nat.add_right_comm]
          simp [Piece.character]
      | escape letter value known =>
          simp only [List.flatMap_cons, Piece.text, List.cons_append,
            List.nil_append]
          rw [readString_escape known, inner, right_right, List.length_cons,
            List.length_cons, Nat.add_comm 2, Nat.add_right_comm]
          simp [Piece.character]

/-- A string literal that is read is closed on its line. -/
theorem exists_pieces {lexeme : Lexeme} :
    ∀ {text : List Char} {position : Position}
    {done : List Char}, readString position done text = .ok lexeme →
      ∃ (pieces : List Piece) (rest : List Char),
        text = pieces.flatMap Piece.text ++ '"' :: rest
  | [], _, _, read => by cases read
  | character :: text, position, done, read => by
      by_cases quote : character = '"'
      · exact ⟨[], text, by simp [quote]⟩
      by_cases escape : character = '\\'
      · subst escape
        cases text with
        | nil => cases read
        | cons letter text =>
            cases known : unescape? letter with
            | none => simp [readString, known] at read
            | some value =>
                rw [readString_escape (unescape?_eq_some.1 known)] at read
                obtain ⟨pieces, rest, rfl⟩ := exists_pieces read
                exact ⟨.escape letter value (unescape?_eq_some.1 known) ::
                  pieces, rest,
                  by simp [Piece.text]⟩
      by_cases feed : character = '\n'
      · rw [readString.eq_def] at read
        simp [feed] at read
      · have allowed : character ∉ ['"', '\\', '\n'] := by
          simp [quote, escape, feed]
        rw [readString_plain allowed] at read
        obtain ⟨pieces, rest, rfl⟩ := exists_pieces read
        exact ⟨.plain character allowed :: pieces, rest, by simp [Piece.text]⟩

theorem rest_eq_of_pieces {pieces others : List Piece} {after : List Char}
    (same : pieces.flatMap Piece.text ++ '"' :: rest =
      others.flatMap Piece.text ++ '"' :: after) :
    rest = after := by
  have read := readString_pieces pieces .start [] rest
  rw [same, readString_pieces others] at read
  exact (congrArg Lexeme.rest (Except.ok.inj read)).symm

/-! ## The longest lexeme -/

namespace Form

theorem mark_length_le {sign other : Mark}
    (ends : (mark sign).Ends rest)
    (within : other.spelling.toList <+: sign.spelling.toList ++ rest) :
    other.spelling.toList.length ≤ sign.spelling.toList.length := by
  obtain ⟨character, base, marks, ⟨rfl, spelled⟩ | ⟨-, spelled⟩⟩ :=
    exists_character sign
  · obtain ⟨_, _, alsoMarks, ⟨-, otherSpelled⟩ | ⟨grows, otherSpelled⟩⟩ :=
      exists_character other
    · simp [spelled, otherSpelled]
    · rw [spelled, otherSpelled] at within
      obtain ⟨rfl, equals⟩ := List.cons_prefix_cons.1 within
      cases marks.symm.trans alsoMarks
      obtain ⟨after, rfl⟩ := equals
      exact absurd rfl (ends other grows)
  · obtain ⟨_, _, _, ⟨-, otherSpelled⟩ | ⟨-, otherSpelled⟩⟩ :=
      exists_character other
    all_goals simp [spelled, otherSpelled]

/-- A run of digits that ends is not the whole part of a decimal. -/
theorem startsFraction_of_decimal
    {digits whole places : Run Char.isDigit} {after : List Char}
    (stops : Stops Char.isDigit rest)
    (same : (decimal whole places).text ++ after = digits.characters ++ rest) :
    startsFraction rest = true := by
  simp only [text, List.append_assoc, List.cons_append] at same
  have wholeEq : whole.characters = digits.characters := by
    rw [← whole.takeWhile_append (stops_point _), same,
      digits.takeWhile_append stops]
  rw [wholeEq, List.append_cancel_left_eq] at same
  obtain ⟨digit, others, split, isDigit⟩ := places.exists_cons
  rw [← same, split]
  exact isDigit

theorem decimal_length_le
    {whole places digits decimals : Run Char.isDigit} {after : List Char}
    (ends : (decimal whole places).Ends rest)
    (same : (decimal digits decimals).text ++ after =
      (decimal whole places).text ++ rest) :
    (decimal digits decimals).text.length ≤
      (decimal whole places).text.length := by
  simp only [text, List.append_assoc, List.cons_append] at same ⊢
  have wholeEq : digits.characters = whole.characters := by
    rw [← digits.takeWhile_append (stops_point _), same,
      whole.takeWhile_append (stops_point _)]
  rw [wholeEq, List.append_cancel_left_eq, List.cons.injEq] at same
  have bounded := decimals.length_le ⟨after, same.2⟩ ends
  simp [wholeEq, bounded]

/-- A lexeme that does not go on is the longest at its place. -/
theorem Ends.longest {form : Form} (ends : form.Ends rest) :
    form.Longest rest := by
  intro other within
  -- The first character leaves only lexemes of the same sort to compare with.
  have sameSort := family_eq within
  cases form with
  | mark sign =>
      cases other <;> cases sameSort
      exact mark_length_le ends within
  | number digits =>
      cases other <;> cases sameSort
      · exact Run.length_le _ within ends.1
      · obtain ⟨after, same⟩ := within
        have fraction := startsFraction_of_decimal ends.1 same
        rw [ends.2] at fraction
        cases fraction
  | decimal whole places =>
      cases other <;> cases sameSort
      next digits =>
        simp only [text, List.append_assoc] at within
        have bounded := digits.length_le within (stops_point _)
        simp only [text, List.length_append]
        omega
      · obtain ⟨after, same⟩ := within
        exact decimal_length_le ends same
  | word letters =>
      cases other <;> cases sameSort
      next otherLetters => exact otherLetters.run.length_le within ends
  | quoted pieces =>
      cases other <;> cases sameSort
      obtain ⟨after, same⟩ := within
      have sameRest : after = rest :=
        rest_eq_of_pieces (by simpa [text] using same)
      have sameText := List.append_inj_left' same
        (congrArg List.length sameRest)
      rw [sameText]

end Form

/-! ## Reading a lexeme -/

theorem readMark_of_ends {sign : Mark}
    (ends : (Form.mark sign).Ends rest)
    (position : Position) :
    readMark position sign rest = ⟨.mark sign, position.right 1, rest⟩ := by
  unfold readMark
  split
  next longer _ grows => exact absurd rfl (ends longer grows)
  next => rfl

theorem readMark_withEquals {base sign : Mark}
    (grows : base.withEquals? = some sign)
    (position : Position) (rest : List Char) :
    readMark position base ('=' :: rest) =
      ⟨.mark sign, position.right 2, rest⟩ := by
  simp [readMark, grows]

theorem readLexeme_mark {mark : Mark}
    (marks : Mark.ofCharacter? first = some mark)
    (position : Position) (rest : List Char) :
    readLexeme position first rest = .ok (readMark position mark rest) := by
  simp [readLexeme, marks]

theorem readLexeme_digit
    (digit : first.isDigit = true)
    (position : Position) (rest : List Char) :
    readLexeme position first rest = readNumber position (first :: rest) := by
  have part := isWordPart_of_isDigit digit
  simp [readLexeme, ofCharacter?_of_isWordPart part,
    ne_quote_of_isWordPart part, digit]

theorem readLexeme_wordStart
    (starts : isWordStart first = true)
    (position : Position) (rest : List Char) :
    readLexeme position first rest =
      .ok (readWord position (first :: rest)) := by
  have part := isWordPart_of_isWordStart starts
  simp [readLexeme, ofCharacter?_of_isWordPart part,
    ne_quote_of_isWordPart part, isDigit_eq_false_of_isWordStart starts, starts]

theorem Run.kept_first
    (run : Run keeps)
    {behind : List Char}
    (split : first :: behind = run.characters ++ rest) :
    keeps first = true := by
  obtain ⟨character, others, begins, kept⟩ := run.exists_cons
  rw [begins] at split
  exact (List.cons.inj split).1 ▸ kept

theorem readNumber_number {digits : Run Char.isDigit}
    (ends : (Form.number digits).Ends rest)
    (position : Position) :
    readNumber position (digits.characters ++ rest) =
      match Integer.ofInt? (Decimal.readDigits digits.characters) with
      | some value => .ok
          ⟨.int value, position.right digits.characters.length, rest⟩
      | none => .error ⟨.integerOutOfRange (String.ofList digits.characters),
          position.right digits.characters.length⟩ := by
  unfold readNumber
  cases value : Integer.ofInt? (Decimal.readDigits digits.characters) <;>
    simp [digits.takeWhile_append ends.1, digits.dropWhile_append ends.1,
      ends.2, value]

theorem readNumber_decimal {whole : Run Char.isDigit}
    (places : Run Char.isDigit)
    (stops : Stops Char.isDigit rest)
    (position : Position) :
    readNumber position
        (whole.characters ++ '.' :: (places.characters ++ rest)) =
      .ok ⟨.float (Decimal.ofPlaces whole.characters places.characters),
        position.right (whole.characters.length + 1 + places.characters.length),
        rest⟩ := by
  have fraction :
      startsFraction ('.' :: (places.characters ++ rest)) = true := by
    obtain ⟨digit, others, begins, isDigit⟩ := places.exists_cons
    rw [begins]
    exact isDigit
  rw [readNumber, whole.takeWhile_append (stops_point _),
    whole.dropWhile_append (stops_point _)]
  simp only [fraction, if_true, List.drop_succ_cons, List.drop_zero]
  rw [places.takeWhile_append stops, places.dropWhile_append stops]

theorem readWord_word {letters : Letters}
    (stops : Stops isWordPart rest)
    (position : Position) :
    readWord position (letters.characters ++ rest) =
      ⟨match Keyword.ofSpelling? (String.ofList letters.characters) with
        | some keyword => .keyword keyword
        | none => .ident (String.ofList letters.characters),
        position.right letters.characters.length, rest⟩ := by
  have taken := letters.run.takeWhile_append stops
  have dropped := letters.run.dropWhile_append stops
  simp only [Letters.run] at taken dropped
  cases found : Keyword.ofSpelling? (String.ofList letters.characters) <;>
    simp [readWord, taken, dropped, found]

theorem ok_eq_ok {kind : TokenKind} {next : Position} {lexeme : Lexeme} :
    (.ok ⟨kind, next, rest⟩ : Except SourceError Lexeme) = .ok lexeme ↔
      lexeme.kind = kind ∧ lexeme.next = next ∧ lexeme.rest = rest := by
  obtain ⟨_, _, _⟩ := lexeme
  simp [eq_comm]

theorem ofInt?_eq_some {value : Nat} {result : Int64} :
    Integer.ofInt? value = some result ↔ value ≤ 2 ^ 63 - 1 ∧
    Int64.ofInt value = result := by
  have inRange : (Integer.least ≤ value ∧ (value : Int) ≤ Integer.greatest) ↔
      value ≤ 2 ^ 63 - 1 := by
    simp only [Integer.least, Integer.greatest]
    omega
  simp only [Integer.ofInt?, inRange, Option.ite_none_right_eq_some,
    Option.some.injEq]

theorem ofSpelling?_eq_none {spelling : String} :
    Keyword.ofSpelling? spelling = none ↔
    ∀ word : Keyword, word.spelling ≠ spelling := by
  have listed (word : Keyword) : word ∈ Keyword.all := by cases word <;> decide
  simp [Keyword.ofSpelling?, listed]

theorem ofSpelling?_eq_some {spelling : String} {word : Keyword} :
    Keyword.ofSpelling? spelling = some word ↔ word.spelling = spelling := by
  constructor
  · intro found
    unfold Keyword.ofSpelling? at found
    simpa using List.find?_some found
  · rintro rfl
    exact Keyword.ofSpelling?_spelling word

namespace Form

variable {kind : TokenKind} {lexeme : Lexeme}

theorem means_mark {sign : Mark} :
    (mark sign).Means kind ↔ kind = .mark sign := by
  constructor
  · rintro ⟨⟩
    rfl
  · rintro rfl
    exact .mark sign

theorem means_decimal {whole places : Run Char.isDigit} :
    (decimal whole places).Means kind ↔
      kind = .float (Decimal.ofPlaces whole.characters places.characters) := by
  constructor
  · rintro ⟨⟩
    rfl
  · rintro rfl
    exact .decimal whole places

theorem means_quoted {pieces : List Piece} : (quoted pieces).Means kind ↔
    kind = .str (String.ofList (pieces.map Piece.character)) := by
  constructor
  · rintro ⟨⟩
    rfl
  · rintro rfl
    exact .quoted pieces

theorem means_number {digits : Run Char.isDigit} : (number digits).Means kind ↔
    ∃ value, Integer.ofInt? (Decimal.readDigits digits.characters) =
        some value ∧
      kind = .int value := by
  constructor
  · rintro (_ | ⟨_, bounded⟩)
    exact ⟨_, ofInt?_eq_some.2 ⟨bounded, rfl⟩, rfl⟩
  · rintro ⟨value, inRange, rfl⟩
    obtain ⟨bounded, rfl⟩ := ofInt?_eq_some.1 inRange
    exact .number digits bounded

theorem means_word {letters : Letters} : (word letters).Means kind ↔
      kind = match Keyword.ofSpelling? (String.ofList letters.characters) with
        | some keyword => .keyword keyword
        | none => .ident (String.ofList letters.characters) := by
  constructor
  · rintro (_ | _ | _ | ⟨_, word, reserved⟩ | ⟨_, free⟩)
    · rw [ofSpelling?_eq_some.2 reserved]
    · rw [ofSpelling?_eq_none.2 free]
  · rintro rfl
    split
    next keyword found =>
      exact .keyword letters keyword (ofSpelling?_eq_some.1 found)
    next notFound => exact .ident letters (ofSpelling?_eq_none.1 notFound)

/-- What is read of a text that begins with a lexeme which does not go on. -/
theorem Ends.read {form : Form} {behind : List Char}
    (ends : form.Ends rest)
    (split : first :: behind = form.text ++ rest) :
    readLexeme position first behind = .ok lexeme ↔
      form.Means lexeme.kind ∧ lexeme.next = position.right form.text.length ∧
        lexeme.rest = rest := by
  cases form with
  | mark sign =>
      obtain ⟨character, base, marks, ⟨rfl, spelled⟩ | ⟨grows, spelled⟩⟩ :=
        exists_character sign
      all_goals
        simp only [text, spelled, List.cons_append, List.nil_append] at split ⊢
        cases split
      · rw [readLexeme_mark marks, readMark_of_ends ends, ok_eq_ok, means_mark]
        rfl
      · rw [readLexeme_mark marks, readMark_withEquals grows,
          ok_eq_ok, means_mark]
        rfl
  | number digits =>
      rw [readLexeme_digit (digits.kept_first split), split, text, means_number,
        readNumber_number ends]
      cases Integer.ofInt? (Decimal.readDigits digits.characters) with
      | none => simp
      | some value =>
          simp only [ok_eq_ok, Option.some.injEq, exists_eq_left']
  | decimal whole places =>
      simp only [text, List.append_assoc, List.cons_append] at split
      rw [readLexeme_digit (whole.kept_first split), split, means_decimal,
        readNumber_decimal places ends, ok_eq_ok]
      simp [text, Nat.add_assoc, Nat.add_comm 1]
  | word letters =>
      have isFirst : first = letters.first := (List.cons.inj split).1
      rw [readLexeme_wordStart (isFirst ▸ letters.isWordStart_first), split,
        text, means_word, readWord_word ends, ok_eq_ok]
  | quoted pieces =>
      simp only [text, List.cons_append, List.append_assoc, List.nil_append]
        at split
      cases split
      have read : readLexeme position '"'
          (pieces.flatMap Piece.text ++ '"' :: rest) =
          readString (position.right 1) []
            (pieces.flatMap Piece.text ++ '"' :: rest) := rfl
      rw [read, readString_pieces, right_right, ok_eq_ok, means_quoted]
      simp [text, Nat.add_comm]

end Form

/-! ## What is read is a lexeme -/

theorem spelling_of_ofCharacter? {sign : Mark}
    (marks : Mark.ofCharacter? first = some sign) :
    sign.spelling.toList = [first] := by
  unfold Mark.ofCharacter? at marks
  split at marks <;> cases marks <;> rfl

theorem withEquals?_of_withEquals? {sign longer : Mark}
    (grows : sign.withEquals? = some longer) :
    longer.withEquals? = none := by
  cases sign <;> cases grows <;> rfl

namespace Form

theorem exists_mark {sign : Mark}
    (marks : Mark.ofCharacter? first = some sign)
    (behind : List Char) :
    ∃ (form : Form) (rest : List Char), first :: behind = form.text ++ rest ∧
      form.Ends rest := by
  by_cases longer : ∃ longer, sign.withEquals? = some longer ∧
    behind.head? = some '='
  · obtain ⟨longer, grows, equals⟩ := longer
    obtain ⟨rest, rfl⟩ := List.head?_eq_some_iff.1 equals
    refine ⟨.mark longer, rest, ?_, fun next alsoGrows => ?_⟩
    · simp [text, spelling_withEquals grows, spelling_of_ofCharacter? marks]
    · rw [withEquals?_of_withEquals? grows] at alsoGrows
      cases alsoGrows
  · refine ⟨.mark sign, behind, ?_, fun next grows equals =>
      longer ⟨next, grows, equals⟩⟩
    simp [text, spelling_of_ofCharacter? marks]

theorem exists_number (digit : first.isDigit = true) (behind : List Char) :
    ∃ (form : Form) (rest : List Char), first :: behind = form.text ++ rest ∧
      form.Ends rest := by
  have stops := stops_dropWhile Char.isDigit (first :: behind)
  have split := Run.front_append digit behind
  cases fraction :
    startsFraction ((first :: behind).dropWhile Char.isDigit) with
  | false =>
      exact ⟨.number (.front digit behind), _, split.symm, stops, fraction⟩
  | true =>
      obtain ⟨next, more, after, isDigit⟩ := startsFraction_eq_true fraction
      refine ⟨.decimal (.front digit behind) (.front isDigit more), _, ?_,
        stops_dropWhile Char.isDigit (next :: more)⟩
      rw [text, List.append_assoc, List.cons_append, Run.front_append isDigit,
        ← after, split]

theorem exists_word (starts : isWordStart first = true) (behind : List Char) :
    ∃ (form : Form) (rest : List Char), first :: behind = form.text ++ rest ∧
      form.Ends rest :=
  ⟨.word (.front starts behind), behind.dropWhile isWordPart,
    congrArg (first :: ·) List.takeWhile_append_dropWhile.symm,
    stops_dropWhile isWordPart behind⟩

/-- A text of which a lexeme is read begins with one that does not go on. -/
theorem exists_of_read {behind : List Char}
    (read : readLexeme position first behind = .ok lexeme) :
    ∃ (form : Form) (rest : List Char), first :: behind = form.text ++ rest ∧
      form.Ends rest := by
  unfold readLexeme at read
  split at read
  next sign marks => exact exists_mark marks behind
  next =>
    split at read
    next quote =>
      subst quote
      obtain ⟨pieces, rest, rfl⟩ := exists_pieces read
      exact ⟨.quoted pieces, rest, by simp [text], trivial⟩
    next =>
      split at read
      next digit => exact exists_number digit behind
      next =>
        split at read
        next starts => exact exists_word starts behind
        next => cases read

end Form

/-- The lexeme that is read is the longest one at the front of the text, and its
token is the one that the lexeme stands for. -/
theorem readLexeme_eq_ok {behind : List Char} {lexeme : Lexeme} :
    readLexeme position first behind = .ok lexeme ↔
      ∃ form : Form, first :: behind = form.text ++ lexeme.rest ∧
        form.Longest lexeme.rest ∧
        form.Means lexeme.kind ∧ lexeme.next = position.after form.text := by
  constructor
  · intro read
    obtain ⟨form, rest, split, ends⟩ := Form.exists_of_read read
    obtain ⟨means, next, rfl⟩ := (ends.read split).1 read
    exact ⟨form, split, ends.longest, means, by rw [form.after_text, next]⟩
  · rintro ⟨form, split, longest, means, next⟩
    exact (longest.ends.read split).2
      ⟨means, by rw [← form.after_text, next], rfl⟩

end EffectScript.Lexer
