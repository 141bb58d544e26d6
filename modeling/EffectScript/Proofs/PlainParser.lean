import EffectScript.Expression.Parser
import EffectScript.Proofs.Outcome

/-!
# Parsing without effects

Programs are parsed by computations that can only fail. In these a cursor is
advanced by a function, and so are the marks, operators and semicolons read that
may or may not be there.
-/

namespace EffectScript

namespace Cursor

/-- The cursor behind the given mark, if the mark comes next. -/
def accept? (cursor : Cursor) (mark : Mark) : Option Cursor :=
  if cursor.sees mark then some cursor.advance else none

/-- The operator of the given level that comes next, and the cursor behind
it. -/
def operator? (cursor : Cursor) (level : Precedence) :
    Option (BinaryOp × Cursor) :=
  match cursor.peek? with
  | some (.mark mark) => (level.operator? mark).map fun op =>
      (op, cursor.advance)
  | _ => none

/-- The cursor behind the semicolons at the front of the tokens. -/
def skipSemicolonsFrom (previous : Position) : List Token → Cursor
  | [] => ⟨[], previous⟩
  | token :: rest =>
      if token.kind = .mark .semicolon then
        skipSemicolonsFrom token.position rest
      else ⟨token :: rest, previous⟩

/-- The cursor behind semicolons. -/
def skipSemicolons (cursor : Cursor) : Cursor :=
  skipSemicolonsFrom cursor.previous cursor.rest

variable (cursor : Cursor)

theorem accept_eq (mark : Mark) :
    cursor.accept mark =
      (pure (cursor.accept? mark) : Except SourceError (Option Cursor)) := by
  unfold accept accept?
  split <;> rfl

theorem operator_eq (level : Precedence) :
    cursor.operator level =
      (pure (cursor.operator? level) :
        Except SourceError (Option (BinaryOp × Cursor))) := by
  unfold operator operator?
  cases cursor.peek? with
  | none => rfl
  | some kind =>
      cases kind with
      | mark mark => simp only; cases level.operator? mark <;> rfl
      | _ => rfl

theorem passSemicolonsFrom_eq (previous : Position) (tokens : List Token) :
    passSemicolonsFrom previous tokens =
      (pure (skipSemicolonsFrom previous tokens) :
        Except SourceError Cursor) := by
  induction tokens generalizing previous with
  | nil => rfl
  | cons token rest inner =>
      simp only [passSemicolonsFrom, skipSemicolonsFrom]
      split
      next semicolon =>
        have advanced : (⟨token :: rest, previous⟩ : Cursor).advance =
            ⟨rest, token.position⟩ := by
          simp [advance, semicolon]
        exact (congrArg (passSemicolonsFrom ·.previous rest) advanced).trans
          (inner token.position)
      next => rfl

theorem passSemicolons_eq :
    cursor.passSemicolons =
      (pure cursor.skipSemicolons : Except SourceError Cursor) :=
  passSemicolonsFrom_eq cursor.previous cursor.rest

end Cursor

/-- What computations that can only fail make of the readers. -/
theorem Parser.plain :
    (∀ cursor : Cursor,
      ReadsTokens.move cursor =
        (pure cursor.advance : Except SourceError Cursor)) ∧
    (∀ {α : Type} (error : SourceError),
      ReadsTokens.fail error = (.error error : Except SourceError α)) ∧
    (∀ (cursor : Cursor) (mark : Mark), cursor.accept mark =
      (pure (cursor.accept? mark) : Except SourceError (Option Cursor))) ∧
    (∀ (cursor : Cursor) (level : Precedence), cursor.operator level =
      (pure (cursor.operator? level) :
        Except SourceError (Option (BinaryOp × Cursor)))) ∧
    ∀ cursor : Cursor, cursor.passSemicolons =
      (pure cursor.skipSemicolons : Except SourceError Cursor) :=
  ⟨fun _ => rfl, fun _ => rfl, Cursor.accept_eq, Cursor.operator_eq,
    Cursor.passSemicolons_eq⟩

theorem Block.parse_eq_ok {tokens : List Token} {program : Block} :
    Block.parse tokens = .ok program ↔ ∃ expressions after,
      Parser.sequence (Parser.depthFor tokens.length) false ⟨tokens, .start⟩ =
        .ok (expressions, after) ∧
      program = ⟨expressions, (⟨tokens, .start⟩ : Cursor).position⟩ := by
  unfold Block.parse
  rw [Outcome.bind_eq_ok]
  constructor
  · rintro ⟨⟨expressions, after⟩, read, ⟨⟩⟩
    exact ⟨expressions, after, read, rfl⟩
  · rintro ⟨expressions, after, read, rfl⟩
    exact ⟨(expressions, after), read, rfl⟩

end EffectScript
