import EffectScript.Proofs.TokenCoverage
import EffectScript.Proofs.Relocation
import EffectScript.Proofs.Scanning
import EffectScript.Proofs.Surveying

/-!
# The lines in line tables

Every line that a compiled function records is the line of a token of its source
text.

The compiler takes lines from the places in the program, and these are places of
tokens. So moving the places on all other lines changes nothing about the
program; but it changes every other line in the line tables, and therefore there
is none.
-/

namespace EffectScript

/-! ## Programs that stay in place -/

/-- Whatever begins with an essential one of the words stays at its place. -/
def Settled (move : Position → Position) (words : List Word) : Prop :=
  ∀ word ∈ essential words, ∀ position ∈ word.begins, move position = position

namespace Settled

variable {move : Position → Position} {position : Position} {word : Word}
    {words more : List Word}

theorem append_iff :
    Settled move (words ++ more) ↔ Settled move words ∧ Settled move more := by
  simp only [Settled, essential_append, List.mem_append, or_imp, forall_and]

/-- A word that nothing begins with stays anyway. -/
theorem cons_iff (plain : word.begins = []) :
    Settled move (word :: words) ↔ Settled move words := by
  unfold Settled
  rw [essential_cons]
  split
  · simp [plain]
  · rfl

theorem parenthesised_iff :
    Settled move (parenthesised words) ↔ Settled move words := by
  unfold Settled
  rw [essential_parenthesised]

theorem inContext_iff {context : Nat} {expression : Expr} :
    Settled move (expression.inContext context words) ↔ Settled move words := by
  unfold Settled
  rw [essential_inContext]

theorem of_beginningAt (settled : Settled move (beginningAt position words)) :
    Settled move words := by
  unfold Settled at settled ⊢
  rw [essential_beginningAt] at settled
  cases essentialEq : essential words with
  | nil => simp
  | cons first later =>
      have counts : first.kind.isEssential := by
        have member : first ∈ essential words :=
          essentialEq ▸ List.mem_cons_self
        exact (List.mem_filter.1 member).2
      simp only [essentialEq, beginningAt, counts, if_true,
        List.forall_mem_cons] at settled ⊢
      exact ⟨settled.1.2, settled.2⟩

theorem of_begins
    (settled : Settled move words)
    (begins : Begins position words) :
    move position = position := by
  obtain ⟨word, later, first, starts⟩ := begins
  exact settled word (first ▸ List.mem_cons_self) position starts

/-- Words stay where the tokens stay that write them. -/
theorem of_written {tokens : List Token}
    (written : List.Forall₂ Word.WrittenBy (essential words) tokens)
    (kept : ∀ token ∈ tokens, move token.position = token.position) :
    Settled move words := by
  unfold Settled
  generalize essential words = counting at written
  induction written with
  | nil => simp
  | cons first _ inner =>
      simp only [List.forall_mem_cons] at kept ⊢
      refine ⟨fun position begins => ?_, inner kept.2⟩
      rw [first.begins position begins]
      exact kept.1

end Settled

section Syntax

variable {move : Position → Position}

open Settled

mutual

/-- An expression is not moved where nothing in it is. -/
theorem Expr.moved_of_settled :
    (expression : Expr) → Settled move expression.words →
      expression.moved move = expression
  | .ident name position, settled => by
      have here : move position = position :=
        settled.of_begins (Expr.ident name position).begins
      rw [Expr.moved, here]
  | .literal value position, settled => by
      have here : move position = position :=
        settled.of_begins (Expr.literal value position).begins
      rw [Expr.moved, here]
  | .binary op left right position, settled => by
      have here : move position = position :=
        settled.of_begins (Expr.binary op left right position).begins
      have inside := settled.of_beginningAt
      rw [append_iff, cons_iff rfl, inContext_iff, inContext_iff] at inside
      rw [Expr.moved, here, left.moved_of_settled inside.1,
        right.moved_of_settled inside.2]
  | .unary op operand position, settled => by
      have here : move position = position :=
        settled.of_begins (Expr.unary op operand position).begins
      have inside := settled.of_beginningAt
      rw [cons_iff rfl, inContext_iff] at inside
      rw [Expr.moved, here, operand.moved_of_settled inside]
  | .call callee arguments position, settled => by
      have here : move position = position :=
        settled.of_begins (Expr.call callee arguments position).begins
      have inside := settled.of_beginningAt
      rw [append_iff, inContext_iff, parenthesised_iff] at inside
      rw [Expr.moved, here, callee.moved_of_settled inside.1,
        movedAll_of_separated .comma arguments inside.2]
  | .assign target value position, settled => by
      have here : move position = position :=
        settled.of_begins (Expr.assign target value position).begins
      have inside := settled.of_beginningAt
      rw [append_iff, cons_iff rfl, inContext_iff] at inside
      rw [Expr.moved, here, target.moved_of_settled inside.1,
        value.moved_of_settled inside.2]
  | .define name parameters body position, settled => by
      have here : move position = position :=
        settled.of_begins (Expr.define name parameters body position).begins
      have inside := settled.of_beginningAt
      rw [append_iff] at inside
      rw [Expr.moved, here, body.moved_of_settled inside.2]
  | .block body, settled => by rw [Expr.moved, body.moved_of_settled settled]
  | .branch condition consequence alternative position, settled => by
      have here : move position = position :=
        settled.of_begins
          (Expr.branch condition consequence alternative position).begins
      have inside := settled.of_beginningAt
      rw [append_iff, append_iff, cons_iff rfl] at inside
      obtain ⟨⟨conditionSettled, consequenceSettled⟩, alternativeSettled⟩ :=
        inside
      rw [Expr.moved, here, condition.moved_of_settled conditionSettled,
        consequence.moved_of_settled consequenceSettled,
        movedOptional_of_alternative alternative alternativeSettled]
  | .loop condition body position, settled => by
      have here : move position = position :=
        settled.of_begins (Expr.loop condition body position).begins
      have inside := settled.of_beginningAt
      rw [append_iff, cons_iff rfl] at inside
      rw [Expr.moved, here, condition.moved_of_settled inside.1,
        body.moved_of_settled inside.2]
  | .attempt body clauses position, settled => by
      have here : move position = position :=
        settled.of_begins (Expr.attempt body clauses position).begins
      have inside := settled.of_beginningAt
      rw [append_iff, cons_iff rfl] at inside
      rw [Expr.moved, here, body.moved_of_settled inside.1,
        movedClauses_of_settled clauses inside.2]
  | .perform effect payload position, settled => by
      have here : move position = position :=
        settled.of_begins (Expr.perform effect payload position).begins
      have inside := settled.of_beginningAt
      rw [cons_iff rfl, cons_iff rfl, parenthesised_iff] at inside
      rw [Expr.moved, here, movedOptional_of_payload payload inside]

theorem Block.moved_of_settled : (block : Block) → Settled move block.words →
    block.moved move = block
  | ⟨expressions, position⟩, settled => by
      have here : move position = position :=
        settled.of_begins (Expr.block ⟨expressions, position⟩).begins
      have inside := settled.of_beginningAt
      rw [append_iff, cons_iff rfl] at inside
      rw [Block.moved, here,
        movedAll_of_separated .semicolon expressions inside.1]

theorem movedAll_of_separated (separator : Mark) : (expressions : List Expr) →
    Settled move (separatedWords separator expressions) →
    movedAll move expressions = expressions
  | [], _ => rfl
  | first :: others, settled => by
      obtain ⟨firstSettled, othersSettled⟩ := append_iff.1 settled
      rw [movedAll, first.moved_of_settled firstSettled,
        movedAll_of_further separator others othersSettled]

theorem movedAll_of_further (separator : Mark) : (expressions : List Expr) →
    Settled move (furtherWords separator expressions) →
    movedAll move expressions = expressions
  | [], _ => rfl
  | next :: others, settled => by
      obtain ⟨nextSettled, othersSettled⟩ := append_iff.1 settled
      rw [cons_iff rfl] at nextSettled
      rw [movedAll, next.moved_of_settled nextSettled,
        movedAll_of_further separator others othersSettled]

theorem movedOptional_of_alternative : (alternative : Option Expr) →
    Settled move (alternativeWords alternative) →
    movedOptional move alternative = alternative
  | none, _ => rfl
  | some alternative, settled => by
      rw [movedOptional, alternative.moved_of_settled
        ((cons_iff rfl).1 settled)]

theorem movedOptional_of_payload : (payload : Option Expr) →
    Settled move (payloadWords payload) → movedOptional move payload = payload
  | none, _ => rfl
  | some payload, settled => by
    rw [movedOptional, payload.moved_of_settled settled]

theorem movedClauses_of_settled :
    (clauses : List Clause) → Settled move (clauseWords clauses) →
      movedClauses move clauses = clauses
  | [], _ => rfl
  | ⟨effect, parameter, body, position⟩ :: others, settled => by
      obtain ⟨clauseSettled, othersSettled⟩ := append_iff.1 settled
      have here : move position = position :=
        clauseSettled.of_begins (.beginningAt (List.cons_ne_nil _ _))
      have inside := clauseSettled.of_beginningAt
      rw [append_iff] at inside
      rw [movedClauses, here, body.moved_of_settled inside.2,
        movedClauses_of_settled others othersSettled]

end

end Syntax

/-- A program is not moved where its tokens are not. -/
theorem Block.moved_of_parse {move : Position → Position}
    {tokens : List Token} {program : Block}
    (parsed : Block.parse tokens = .ok program)
    (some : tokens ≠ [])
    (kept : ∀ token ∈ tokens, move token.position = token.position) :
    program.moved move = program := by
  obtain ⟨expressions, after, sequenceParsed, rfl⟩ := Block.parse_eq_ok.1 parsed
  obtain ⟨used, usedEq, _, written⟩ :=
    Parser.spends_sequence _ false _ _ _ sequenceParsed
  have settled : Settled move (separatedWords .semicolon expressions) := by
    refine .of_written written fun token member => kept token ?_
    rw [show tokens = used ++ after.rest from usedEq]
    exact List.mem_append_left _ (List.mem_filter.1 member).1
  obtain ⟨first, others, rfl⟩ := List.exists_cons_of_ne_nil some
  rw [Block.moved, movedAll_of_separated .semicolon expressions settled]
  exact congrArg (Block.mk expressions) (kept first List.mem_cons_self)

/-! ## Functions that keep their lines -/

theorem Template.constants_relined
    (change : UInt32 → UInt32) (template : Template) :
    (template.relined change).constants =
      template.constants.map (Value.relined change) := by
  cases template
  exact valuesRelined_eq_map change _

theorem Template.lines_relined
    (change : UInt32 → UInt32) (template : Template) :
    (template.relined change).debug.lines =
      template.debug.lines.map change := by
  cases template
  rfl

/-- The functions in a function that keeps its lines keep theirs. -/
theorem Template.Contains.relined_eq
    {change : UInt32 → UInt32} {script template : Template}
    (contains : script.Contains template)
    (same : script.relined change = script) :
    template.relined change = template := by
  induction contains with
  | itself => exact same
  | @constant outer inner identity _ member outerSame =>
      have constants : outer.constants.map (Value.relined change) =
          outer.constants.map id := by
        rw [List.map_id, ← Template.constants_relined, outerSame]
      have unchanged := List.map_inj_left.1 constants _ member
      rw [Value.relined] at unchanged
      injection unchanged

theorem Template.line_of_relined_eq
    {change : UInt32 → UInt32} {template : Template}
    (same : template.relined change = template)
    {line : UInt32}
    (member : line ∈ template.debug.lines) :
    change line = line := by
  have lines : template.debug.lines.map change =
      template.debug.lines.map id := by
    rw [Array.map_id, ← Template.lines_relined, same]
  exact Array.map_inj_left.1 lines line member

/-! ## Source lines -/

/-- How many lines a source text has. -/
def lineCount (source : String) : Nat :=
  1 + source.toList.count '\n'

/-- A token of the source text stands on the line, which is one of its lines,
counted from one. -/
structure IsSourceLine (source : String) (line : Nat) : Prop where
  token : ∃ tokens token, Token.scan source = .ok tokens ∧ token ∈ tokens ∧
    token.position.line = line
  positive : 1 ≤ line
  within : line ≤ lineCount source

/-- The tokens of a text stand on its lines. -/
theorem Lexer.Splits.line_le {before text : List Char}
    {tokens : List Token}
    (splits : Lexer.Splits before text tokens)
    {token : Token}
    (member : token ∈ tokens) :
    1 ≤ token.position.line ∧
    token.position.line ≤ 1 + (before ++ text).count '\n' := by
  induction splits with
  | done before trivia =>
      obtain rfl := List.mem_singleton.1 member
      exact ⟨Nat.le_add_right _ _, Nat.le_refl _⟩
  | @lexeme before gap rest form kind tokens _ _ _ _ _ inner =>
      rcases List.mem_cons.1 member with rfl | later
      · refine ⟨Nat.le_add_right _ _, Nat.add_le_add_left ?_ 1⟩
        exact (List.sublist_append_left gap _).append_left before
          |>.count_le '\n'
      · simpa using inner later

theorem Lexer.Splits.tokens_ne_nil {before text : List Char}
    {tokens : List Token}
    (splits : Lexer.Splits before text tokens) :
    tokens ≠ [] := by
  cases splits <;> exact List.cons_ne_nil _ _

/-- What lowering makes of every function of a source text. -/
theorem compileSource_describes {source file : String}
    {script template : Template}
    (compiled : compileSource source file = .ok script)
    (contains : script.Contains template) :
    ∃ enclosing sketch, Sketch.Describes enclosing sketch template := by
  obtain ⟨_, _, compiledProgram⟩ := compileSource_eq_ok.1 compiled
  obtain ⟨enclosing, sketch, matches_⟩ :=
    (Block.compileWith_described compiledProgram).of_contains contains
  exact ⟨enclosing, sketch, matches_.here⟩

/-- Every line in the line tables of a compiled source text is recorded for one
of the text. -/
theorem compileSource_lines {source file : String}
    {script template : Template}
    (compiled : compileSource source file = .ok script)
    (contains : script.Contains template)
    {recorded : UInt32}
    (member : recorded ∈ template.debug.lines) :
    ∃ line, IsSourceLine source line ∧ recorded = UInt32.ofNat line := by
  obtain ⟨program, parsedSource, compiledProgram⟩ :=
    compileSource_eq_ok.1 compiled
  obtain ⟨tokens, scanned, parsed⟩ := Outcome.bind_eq_ok.1 parsedSource
  have splits := Lexer.Splits.of_scan [] source.toList scanned
  -- What is recorded for tokens stays, and everything else goes up by one.
  let change (recorded : UInt32) : UInt32 :=
    if ∃ token ∈ tokens, token.position.debugLine = recorded then recorded else
      recorded + 1
  let move (position : Position) : Position :=
    if ∃ token ∈ tokens, token.position.debugLine = position.debugLine
      then position
    else ⟨position.line + 1, position.column⟩
  have together (position : Position) :
      (move position).debugLine = change position.debugLine := by
    simp only [move, change]
    split
    · rfl
    · exact UInt32.ofNat_add position.line 1
  have stays : program.moved move = program := by
    refine Block.moved_of_parse parsed splits.tokens_ne_nil
      fun token present => ?_
    exact if_pos ⟨token, present, rfl⟩
  have again : program.compile = .ok (script.relined change) := by
    have moved := @Block.compileWith_moved move change together .elided program
    rw [stays] at moved
    exact moved.trans (congrArg _ compiledProgram)
  have same : script.relined change = script :=
    Except.ok.inj (again.symm.trans compiledProgram)
  have unchanged := Template.line_of_relined_eq
    (contains.relined_eq same) member
  by_cases listed : ∃ token ∈ tokens, token.position.debugLine = recorded
  · obtain ⟨token, present, rfl⟩ := listed
    obtain ⟨positive, within⟩ := splits.line_le present
    exact ⟨token.position.line,
      ⟨⟨tokens, token, scanned, present, rfl⟩, positive, within⟩, rfl⟩
  · simp only [change, if_neg listed] at unchanged
    simp at unchanged

/-- A line that is recorded is itself a line of the text, if the line table can
tell all of them apart. -/
theorem IsSourceLine.toNat_ofNat {source : String}
    {line : Nat}
    (isLine : IsSourceLine source line)
    (few : lineCount source < UInt32.size) :
    (UInt32.ofNat line).toNat = line :=
  UInt32.toNat_ofNat_of_lt' (Nat.lt_of_le_of_lt isLine.within few)

end EffectScript
