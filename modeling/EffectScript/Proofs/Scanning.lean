import EffectScript.Proofs.Lexemes

/-!
# Scanning

A source text is lexemes with trivia before, between and after them. A text is
accepted exactly when it splits in this way with every lexeme the longest at its
place and none of them beginning with `//`; the tokens are then those of its
lexemes, each with its line and column, and the end of the input.

The places of the tokens are given by what stands before them in the text, and
not by counting along with the scanner.
-/

namespace EffectScript.Lexer

variable {text rest gap before : List Char} {tokens : List Token}
    {position : Position}

/-! ## Trivia -/

/-- The first text is trivia where the second one follows it. A comment goes on
to the end of its line, which is a line feed or the end of everything. -/
inductive Trivia : List Char → List Char → Prop where
  | none (rest : List Char) : Trivia [] rest
  | blank {character : Char} {gap rest : List Char}
      (separates : character ∈ [' ', '\t', '\r', '\n'])
      (more : Trivia gap rest) : Trivia (character :: gap) rest
  | comment {body gap rest : List Char} (oneLine : '\n' ∉ body)
      (lineEnds : ∀ next ∈ (gap ++ rest).head?, next = '\n')
        (more : Trivia gap rest) :
      Trivia ('/' :: '/' :: (body ++ gap)) rest

theorem isBlank_eq_true {character : Char} :
    isBlank character = true ↔ character ∈ [' ', '\t', '\r', '\n'] := by
  simp [isBlank, or_assoc]

/-- The text does not begin with trivia. -/
def Solid (rest : List Char) : Prop :=
  (∀ first ∈ rest.head?, isBlank first = false) ∧ ¬ ['/', '/'] <+: rest

/-- A text begins with the rest of its first line. -/
theorem exists_line (text : List Char) :
    ∃ line rest, text = line ++ rest ∧ '\n' ∉ line ∧
      ∀ next ∈ rest.head?, next = '\n' := by
  refine ⟨text.takeWhile (· ≠ '\n'), text.dropWhile (· ≠ '\n'),
    List.takeWhile_append_dropWhile.symm, fun member => ?_,
      fun next found => ?_⟩
  · simpa using List.all_eq_true.1 List.all_takeWhile _ member
  · simpa using stops_dropWhile (· ≠ '\n') text next found

/-- A text begins with trivia, perhaps none. -/
theorem exists_trivia (text : List Char) :
    ∃ gap rest, text = gap ++ rest ∧ Trivia gap rest ∧ Solid rest := by
  match text with
  | [] => exact ⟨[], [], rfl, .none [], by simp [Solid]⟩
  | character :: behind =>
      by_cases separates : isBlank character = true
      · obtain ⟨gap, rest, rfl, trivia, solid⟩ := exists_trivia behind
        exact ⟨character :: gap, rest, rfl,
          .blank (isBlank_eq_true.1 separates) trivia, solid⟩
      by_cases slashes : ['/', '/'] <+: character :: behind
      · obtain ⟨comment, split⟩ := slashes
        obtain ⟨line, after, rfl, oneLine, lineEnds⟩ := exists_line comment
        have shorter : after.length < (character :: behind).length := by
          simp [← split]
          omega
        obtain ⟨gap, rest, rfl, trivia, solid⟩ := exists_trivia after
        exact ⟨'/' :: '/' :: (line ++ gap), rest, by
          simp [← split], .comment oneLine lineEnds trivia,
          solid⟩
      · exact ⟨[], character :: behind, rfl, .none _, by
        simpa using separates, slashes⟩
termination_by text.length
decreasing_by
  · exact Nat.lt_succ_self _
  · exact shorter

/-- The rest of a comment is skipped up to the end of its line. -/
theorem skipTrivia_true {body : List Char}
    (oneLine : '\n' ∉ body)
    (lineEnds : ∀ next ∈ rest.head?, next = '\n')
    (position : Position) :
    skipTrivia true position (body ++ rest) =
      skipTrivia false (position.after body) rest := by
  induction body generalizing position with
  | nil =>
      cases rest with
      | nil => rfl
      | cons next rest =>
          obtain rfl : next = '\n' := lineEnds next rfl
          simp [skipTrivia, isBlank]
  | cons character body inner =>
      simp only [List.mem_cons, not_or] at oneLine
      simp [skipTrivia, Ne.symm oneLine.1, inner oneLine.2]

theorem skipTrivia_solid (solid : Solid rest) (position : Position) :
    skipTrivia false position rest = (position, rest) := by
  cases rest with
  | nil => rfl
  | cons first behind =>
      have noComment : ¬ (first = '/' ∧ behind.head? = some '/') := by
        rintro ⟨rfl, found⟩
        obtain ⟨more, rfl⟩ := List.head?_eq_some_iff.1 found
        exact solid.2 (List.prefix_append ['/', '/'] more)
      simp [skipTrivia, solid.1 first rfl, noComment]

/-- Trivia are skipped and nothing else. -/
theorem Trivia.skip
    (trivia : Trivia gap rest) (solid : Solid rest) (position : Position) :
    skipTrivia false position (gap ++ rest) = (position.after gap, rest) := by
  induction trivia generalizing position with
  | none rest => exact skipTrivia_solid solid position
  | blank separates more inner =>
      simp [skipTrivia, isBlank_eq_true.2 separates, inner solid]
  | comment oneLine lineEnds more inner =>
      have slash : isBlank '/' = false := by decide
      simp only [List.cons_append, List.append_assoc, Position.after_cons,
        Position.after_append]
      rw [← inner solid, ← skipTrivia_true oneLine lineEnds]
      simp [skipTrivia, slash]

/-! ## Places -/

/-- The place after a text: one more line than it has line feeds, and one more
column than it has characters since the last of them. -/
def placeAfter (before : List Char) : Position :=
  ⟨1 + before.count '\n', 1 + (before.reverse.takeWhile (· ≠ '\n')).length⟩

theorem placeAfter_concat (before : List Char) (character : Char) :
    placeAfter (before ++ [character]) =
      (placeAfter before).advance character := by
  by_cases feed : character = '\n'
  · simp [placeAfter, Position.advance, feed, Nat.add_assoc]
  · simp [placeAfter, Position.advance, feed, Nat.add_assoc]

theorem placeAfter_append (before text : List Char) :
    placeAfter (before ++ text) = (placeAfter before).after text := by
  induction text generalizing before with
  | nil => simp
  | cons character text inner =>
      rw [List.append_cons, inner, placeAfter_concat, Position.after_cons]

theorem Trivia.lineFeeds (count : Nat) (rest : List Char) :
    Trivia (List.replicate count '\n') rest := by
  induction count with
  | zero => exact .none rest
  | succ count inner =>
      rw [List.replicate_succ]
      exact .blank (by simp) inner

theorem placeAfter_lineFeeds (count : Nat) :
    placeAfter (List.replicate count '\n') = ⟨1 + count, 1⟩ := by
  simp [placeAfter]

/-! ## Texts and their tokens -/

/-- The text splits into trivia and lexemes with the given tokens, behind what
stands before it. A comment begins wherever there are two slashes, so no lexeme
does. -/
inductive Splits : List Char → List Char → List Token → Prop where
  | done (before : List Char) {gap : List Char} (trivia : Trivia gap []) :
      Splits before gap [⟨.endOfInput, placeAfter (before ++ gap)⟩]
  | lexeme {before gap rest : List Char} {form : Form} {kind : TokenKind}
      {tokens : List Token}
      (trivia : Trivia gap (form.text ++ rest))
        (noComment : ¬ ['/', '/'] <+: form.text ++ rest)
      (longest : form.Longest rest) (means : form.Means kind)
      (others : Splits (before ++ gap ++ form.text) rest tokens) :
      Splits before (gap ++ (form.text ++ rest))
        (⟨kind, placeAfter (before ++ gap)⟩ :: tokens)

theorem scanFrom_end {here : Position}
    (skipped : skipTrivia false position text = (here, [])) :
    scanFrom position text = .ok [⟨.endOfInput, here⟩] := by
  rw [scanFrom.eq_def]
  split <;> simp_all

theorem scanFrom_lexeme {here : Position} {first : Char}
    {behind : List Char}
    (skipped : skipTrivia false position text = (here, first :: behind)) :
    scanFrom position text = .ok tokens ↔ ∃ lexeme later,
      readLexeme here first behind = .ok lexeme ∧
      scanFrom lexeme.next lexeme.rest = .ok later ∧
        tokens = ⟨lexeme.kind, here⟩ :: later := by
  rw [scanFrom.eq_def]
  split
  next ended =>
    rw [skipped] at ended
    cases ended
  next begins =>
    rw [skipped] at begins
    cases begins
    split
    next failed => simp [failed]
    next lexeme read =>
      simp only [read, Except.ok.injEq, exists_and_left, exists_eq_left']
      cases scanFrom lexeme.next lexeme.rest <;> simp [eq_comm]

theorem solid_of_form {form : Form}
    (noComment : ¬ ['/', '/'] <+: form.text ++ rest) :
    Solid (form.text ++ rest) :=
  ⟨fun _ found => Form.isBlank_first found, noComment⟩

/-- A text that splits is scanned. -/
theorem Splits.scan (splits : Splits before text tokens) :
    scanFrom (placeAfter before) text = .ok tokens := by
  induction splits with
  | done before trivia =>
      have skipped := trivia.skip (by simp [Solid]) (placeAfter before)
      rw [List.append_nil] at skipped
      rw [scanFrom_end skipped, placeAfter_append]
  | @lexeme before gap rest form kind tokens trivia noComment longest means
        others inner =>
      have skipped := trivia.skip (solid_of_form noComment) (placeAfter before)
      obtain ⟨first, behind, begins, -⟩ := form.exists_first
      have split : first :: (behind ++ rest) = form.text ++ rest := by
        rw [begins, List.cons_append]
      rw [← split, ← placeAfter_append] at skipped
      rw [← split, scanFrom_lexeme skipped]
      refine ⟨⟨kind, placeAfter (before ++ gap ++ form.text), rest⟩, tokens,
        ?_, inner, rfl⟩
      exact readLexeme_eq_ok.2
        ⟨form, split, longest, means, placeAfter_append _ _⟩

/-- A text that is scanned splits. -/
theorem Splits.of_scan
    (before text : List Char)
    {tokens : List Token}
    (scanned : scanFrom (placeAfter before) text = .ok tokens) :
    Splits before text tokens := by
  obtain ⟨gap, rest, parts, trivia, solid⟩ := exists_trivia text
  have skipped := trivia.skip solid (placeAfter before)
  rw [← parts, ← placeAfter_append] at skipped
  cases rest with
  | nil =>
      rw [scanFrom_end skipped] at scanned
      cases scanned
      rw [parts, List.append_nil]
      exact .done before trivia
  | cons first behind =>
      obtain ⟨lexeme, later, read, others, rfl⟩ :=
        (scanFrom_lexeme skipped).1 scanned
      have shorter := length_rest_lt skipped read
      obtain ⟨form, split, longest, means, reached⟩ := readLexeme_eq_ok.1 read
      rw [reached, ← placeAfter_append] at others
      rw [split] at trivia solid
      rw [parts, split]
      exact .lexeme trivia solid.2 longest means (of_scan _ lexeme.rest others)
termination_by text.length
decreasing_by exact shorter

end EffectScript.Lexer

namespace EffectScript

/-- The scanner accepts exactly the texts that split into trivia and longest
lexemes, and the tokens are those of the lexemes at their true places. -/
theorem scan_eq_ok_iff (source : String) (tokens : List Token) :
    Token.scan source = .ok tokens ↔ Lexer.Splits [] source.toList tokens :=
  ⟨Lexer.Splits.of_scan [] source.toList, fun splits => splits.scan⟩

end EffectScript
