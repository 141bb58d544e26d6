import EffectScript.Proofs.ParserRoundTrip

/-!
# The parser refuses the first impossible token

Every parser function decides by the next token alone. So a reading that
succeeds only depends on the tokens that it used and on the one behind them, and
a reading that fails only on the tokens up to the one that is refused. And
whatever has been read before a refusal can be completed: every reader, wherever
it stands, can be finished by a few tokens that do not depend on what was read.

Together this says that an error stands at the end of the longest part of the
tokens with which a program can begin. The two facts are carried from reader to
reader by `Reader.andThen`, so that each parser function needs an argument only
for what it decides itself.
-/

namespace EffectScript

open EffectScript.Parser

/-! ## Tokens -/

/-- The end of the input is not among the tokens. -/
def Inside (tokens : List Token) : Prop :=
  ∀ token ∈ tokens, token.kind ≠ .endOfInput

namespace Inside

variable {token : Token} {tokens more : List Token}

theorem nil : Inside [] := by
  simp [Inside]

theorem cons (first : token.kind ≠ .endOfInput) (others : Inside tokens) :
    Inside (token :: tokens) :=
  List.forall_mem_cons.2 ⟨first, others⟩

theorem append (first : Inside tokens) (second : Inside more) :
    Inside (tokens ++ more) :=
  List.forall_mem_append.2 ⟨first, second⟩

end Inside

/-- A token that completes something; nobody looks at its place. -/
def Token.filling (kind : TokenKind) : Token :=
  ⟨kind, .start⟩

/-- Any tokens at all. -/
def Anything (_ : List Token) : Prop := True

/-- No tokens can be like this. -/
def Nothing (_ : List Token) : Prop := False

/-- The first of the tokens goes on with no form of expression. -/
def Loose (tokens : List Token) : Prop :=
  ∀ token ∈ tokens.head?, token.kind.grip? = none

/-- At these tokens a sequence of expressions ends. -/
def Ended (braced : Bool) (tokens : List Token) : Prop :=
  let cursor : Cursor := ⟨tokens, .start⟩
  (cursor.peek?.isNone || (braced && cursor.sees .rightBrace)) = true

namespace Cursor

variable {cursor other : Cursor} {kind : TokenKind}

/-- The cursors stand behind the same place and before the same token. -/
structure Alike (cursor other : Cursor) : Prop where
  head : other.rest.head? = cursor.rest.head?
  previous : other.previous = cursor.previous

namespace Alike

theorem refl (cursor : Cursor) : cursor.Alike cursor :=
  ⟨rfl, rfl⟩

theorem peek? (alike : cursor.Alike other) : other.peek? = cursor.peek? := by
  obtain ⟨rest, previous⟩ := cursor
  obtain ⟨otherRest, otherPrevious⟩ := other
  cases rest <;> cases otherRest <;> cases alike.head <;> rfl

theorem position (alike : cursor.Alike other) :
    other.position = cursor.position := by
  obtain ⟨rest, previous⟩ := cursor
  obtain ⟨otherRest, otherPrevious⟩ := other
  cases rest <;> cases otherRest <;> cases alike.head <;> rfl

theorem sees (alike : cursor.Alike other) (mark : Mark) :
    other.sees mark = cursor.sees mark := by
  rw [Cursor.sees, Cursor.sees, alike.peek?]

theorem accept? (alike : cursor.Alike other) (mark : Mark) :
    other.accept? mark = (cursor.accept? mark).map fun _ => other.advance := by
  unfold Cursor.accept?
  rw [alike.sees]
  split <;> rfl

theorem operator? (alike : cursor.Alike other) (level : Precedence) :
    other.operator? level = (cursor.operator? level).map fun read =>
      (read.1, other.advance) := by
  unfold Cursor.operator?
  rw [alike.peek?]
  split
  next mark _ => cases level.operator? mark <;> rfl
  next => rfl

theorem seesCall (alike : cursor.Alike other) :
    other.seesCall = cursor.seesCall := by
  rw [Cursor.seesCall, Cursor.seesCall, alike.sees, alike.position,
    alike.previous]

theorem refuse (alike : cursor.Alike other) (wanted : Expectation) :
    other.refuse wanted = cursor.refuse wanted := by
  rw [Cursor.refuse, Cursor.refuse, alike.peek?, alike.position]

end Alike

/-- Where the first token is loose, no mark that goes on with an expression
comes next. -/
theorem peek?_of_loose {rest : List Token}
    {previous : Position}
    (loose : Loose rest)
    {grip : Nat}
    (grips : kind.grip? = some grip) :
    (⟨rest, previous⟩ : Cursor).peek? ≠ some kind := by
  intro peeked
  obtain ⟨token, rest_eq, rfl, _, _⟩ := rest_eq_of_peek? peeked
  have first : token ∈ rest.head? := by
    rw [show rest = token :: _ from rest_eq]
    rfl
  rw [loose token first] at grips
  cases grips

end Cursor

/-! ## Readers -/

namespace Parser

/-- A parser function with a bound that is fixed or that does not matter. -/
abbrev Reader (α : Type) : Type :=
  Cursor → Except SourceError (α × Cursor)

namespace Reader

variable {α β : Type}

/-- Gives a result without reading. -/
def give (result : α) : Reader α := fun cursor => .ok (result, cursor)

/-- Goes on with another reader behind the first one. -/
def andThen (reader : Reader α) (next : α → Reader β) :
    Reader β := fun cursor =>
  reader cursor >>= fun (value, after) => next value after

/-- Changes the result of a reader. -/
def map (change : α → β) (reader : Reader α) : Reader β :=
  reader.andThen fun value => give (change value)

/-- Goes on behind a mark. -/
def behindMark (mark : Mark) (next : Reader α) : Reader α := fun cursor =>
  cursor.expect mark >>= next

end Reader

instance : Nonempty Expr := ⟨.ident "" .start⟩

instance : Nonempty Block := ⟨⟨[], .start⟩⟩

instance : Nonempty Clause := ⟨⟨"", "", ⟨[], .start⟩, .start⟩⟩

section Calculus

variable {α β : Type} {idle moreIdle front middle behind : List Token → Prop}
    {reader next : Reader α} {parsed : Except SourceError (α × Cursor)}
    {cursor : Cursor} {more further : List Token}

/-- The reading succeeds and leaves exactly the given tokens. -/
def Leaves (rest : List Token) (parsed : Except SourceError (α × Cursor)) :
    Prop :=
  ∃ result previous, parsed = .ok (result, ⟨rest, previous⟩)

/-- The reading that gave `result` and stopped at `after` used the given tokens.
When it used none, what may stand behind it is idle. It goes the same way on all
tokens that begin alike, and also when something else that may stand behind it
stands there. -/
structure Passes
    (idle behind : List Token → Prop)
    (reader : Reader α) (cursor : Cursor) (result : α) (after : Cursor)
    (used : List Token) : Prop where
  rest_eq : cursor.rest = used ++ after.rest
  inside : Inside used
  idle_of_nil : used = [] → ∀ rest, behind rest → idle rest
  again : ∀ rest, rest.head? = after.rest.head? ∨ behind rest →
    reader ⟨used ++ rest, cursor.previous⟩ =
      .ok (result, ⟨rest, after.previous⟩)

/-- The reading was refused at `stop`, behind the given tokens. These can be
completed, whatever may stand behind the reading; and no tokens that begin with
them and the refused one are read. -/
structure Refuses
    (behind : List Token → Prop)
    (reader : Reader α) (cursor : Cursor) (error : SourceError) (stop : Cursor)
    (used : List Token) : Prop where
  rest_eq : cursor.rest = used ++ stop.rest
  inside : Inside used
  refused : ∃ wanted, error = stop.refuse wanted
  completes : used ≠ [] → ∃ more, Inside more ∧ ∀ rest, behind rest →
    Leaves rest (reader ⟨used ++ (more ++ rest), cursor.previous⟩)
  again : ∀ rest, stop.peek? ≠ none → rest.head? = stop.rest.head? →
    reader ⟨used ++ rest, cursor.previous⟩ = .error error

/-- What is known of a reading, unless it ran into its bound. -/
def Foresees
    (idle behind : List Token → Prop)
    (reader : Reader α) (cursor : Cursor) :
    Except SourceError (α × Cursor) → Prop
  | .ok (result, after) =>
      ∃ used, Passes idle behind reader cursor result after used
  | .error error => TooDeep error ∨
      ∃ stop used, Refuses behind reader cursor error stop used

/-- The given tokens finish the reader, whatever may stand behind it; together
they are fit to stand behind what came before. -/
structure Finishes
    (front behind : List Token → Prop)
    (more : List Token) (reader : Reader α) : Prop where
  inside : Inside more
  fit : ∀ rest, behind rest → front (more ++ rest)
  leaves : ∀ rest previous, behind rest →
    Leaves rest (reader ⟨more ++ rest, previous⟩)

namespace Finishes

theorem give (result : α) (fit : ∀ rest, behind rest → front rest) :
    Finishes front behind [] (Reader.give result) where
  inside := .nil
  fit := fit
  leaves := fun _ previous _ => ⟨result, previous, rfl⟩

theorem done {result : α} : Finishes Anything behind [] (Reader.give result) :=
  give result fun _ _ => trivial

theorem congr {other : Reader α}
    (finishes : Finishes front behind more other)
    (same : ∀ rest previous, behind rest → reader ⟨more ++ rest, previous⟩ =
      other ⟨more ++ rest, previous⟩) :
    Finishes front behind more reader where
  inside := finishes.inside
  fit := finishes.fit
  leaves := fun rest previous fits =>
    same rest previous fits ▸ finishes.leaves rest previous fits

theorem andThen [Nonempty α] {next : α → Reader β}
    (early : Finishes front middle more reader)
    (late : ∀ value, Finishes middle behind further (next value)) :
    Finishes front behind (more ++ further) (reader.andThen next) where
  inside := early.inside.append (late (Classical.arbitrary α)).inside
  fit := fun rest fits => by
    rw [List.append_assoc]
    exact early.fit _ ((late (Classical.arbitrary α)).fit rest fits)
  leaves := fun rest previous fits => by
    obtain ⟨value, between, read⟩ :=
      early.leaves (further ++ rest) previous
        ((late (Classical.arbitrary α)).fit rest fits)
    rw [List.append_assoc, Reader.andThen, read]
    exact (late value).leaves rest between fits

theorem map [Nonempty α] {change : α → β}
    (finishes : Finishes front behind more reader) :
    Finishes front behind more (reader.map change) :=
  List.append_nil more ▸ finishes.andThen fun _ => give _ fun _ => id

theorem narrow (finishes : Finishes front Anything more reader) :
    Finishes front behind more reader where
  inside := finishes.inside
  fit := fun rest _ => finishes.fit rest trivial
  leaves := fun rest previous _ => finishes.leaves rest previous trivial

theorem anywhere (finishes : Finishes front behind more reader) :
    Finishes Anything behind more reader :=
  { finishes with fit := fun _ _ => trivial }

/-- A reader that goes on behind a certain token is finished by that token and
what finishes the rest. -/
theorem step
    (next : Reader α)
    {kind : TokenKind}
    (inside : kind ≠ .endOfInput)
    (same : ∀ there, there.peek? = some kind → there.position = .start →
      reader there = next there.advance)
    (finishes : Finishes middle behind more next)
    (fit : ∀ rest, front (.filling kind :: rest)) :
    Finishes front behind (.filling kind :: more) reader where
  inside := .cons inside finishes.inside
  fit := fun rest _ => fit (more ++ rest)
  leaves := fun rest previous fits => by
    have peeked : (⟨.filling kind :: (more ++ rest), previous⟩ : Cursor).peek? =
        some kind := by
      simp [Cursor.peek?, Token.filling, inside]
    have advanced :
        (⟨.filling kind :: (more ++ rest), previous⟩ : Cursor).advance =
        ⟨more ++ rest, .start⟩ := by
      simp [Cursor.advance, Token.filling, inside]
    rw [List.cons_append, same _ peeked rfl, advanced]
    exact finishes.leaves rest _ fits

theorem behindMark {mark : Mark}
    (finishes : Finishes middle behind more next)
    (fit : ∀ rest, front (.filling (.mark mark) :: rest)) :
    Finishes front behind (.filling (.mark mark) :: more)
      (Reader.behindMark mark next) := by
  refine step next (by simp) (fun there peeked _ => ?_) finishes fit
  have seen : there.sees mark = true := decide_eq_true peeked
  rw [Reader.behindMark, Cursor.expect, if_pos seen]
  rfl

end Finishes

theorem Reader.andThen_of_ok {next : α → Reader β}
    {start after : Cursor} {value : α}
    (read : reader start = .ok (value, after)) :
    reader.andThen next start = next value after := by
  rw [Reader.andThen, read]
  rfl

theorem Reader.andThen_of_error {next : α → Reader β}
    {start : Cursor} {error : SourceError}
    (refused : reader start = .error error) :
    reader.andThen next start = .error error := by
  rw [Reader.andThen, refused]
  rfl

/-- What is refused to a reader can be completed for the reader and what comes
behind it. -/
theorem Refuses.andThen [Nonempty α] {next : α → Reader β}
    {error : SourceError} {stop : Cursor} {used : List Token}
    (refuses : Refuses middle reader cursor error stop used)
    (finishes : ∀ value, Finishes middle behind more (next value)) :
    Refuses behind (reader.andThen next) cursor error stop used where
  rest_eq := refuses.rest_eq
  inside := refuses.inside
  refused := refuses.refused
  completes := fun some => by
    have finishing := finishes (Classical.arbitrary α)
    obtain ⟨completion, inside, leaves⟩ := refuses.completes some
    refine ⟨completion ++ more, inside.append finishing.inside,
      fun rest fits => ?_⟩
    obtain ⟨value, previous, read⟩ :=
      leaves (more ++ rest) (finishing.fit rest fits)
    rw [List.append_assoc, Reader.andThen_of_ok read]
    exact (finishes value).leaves rest previous fits
  again := fun rest seen alike =>
    Reader.andThen_of_error (refuses.again rest seen alike)

namespace Passes

variable {next : α → Reader β} {value : α} {after last stop : Cursor}
    {used usedNext : List Token} {result : β} {error : SourceError}

theorem andThen
    (passes : Passes idle middle reader cursor value after used)
    (passesNext : Passes middle behind (next value) after result
      last usedNext) :
    Passes idle behind (reader.andThen next) cursor result last
      (used ++ usedNext) where
  rest_eq := by rw [passes.rest_eq, passesNext.rest_eq, List.append_assoc]
  inside := passes.inside.append passesNext.inside
  idle_of_nil := fun empty rest fits => by
    obtain ⟨empty, emptyNext⟩ := List.append_eq_nil_iff.1 empty
    exact passes.idle_of_nil empty rest
      (passesNext.idle_of_nil emptyNext rest fits)
  again := fun rest allowed => by
    have early : reader ⟨used ++ (usedNext ++ rest), cursor.previous⟩ =
        .ok (value, ⟨usedNext ++ rest, after.previous⟩) := by
      refine passes.again _ ?_
      rw [passesNext.rest_eq]
      by_cases empty : usedNext = []
      · subst empty
        exact allowed.imp_right (passesNext.idle_of_nil rfl rest)
      · exact .inl
          (by rw [List.head?_append_of_ne_nil _ empty,
            List.head?_append_of_ne_nil _ empty])
    rw [List.append_assoc, Reader.andThen_of_ok early]
    exact passesNext.again rest allowed

/-- Behind a reader, what comes next is refused. -/
theorem andThen_refuses
    (passes : Passes idle middle reader cursor value after used)
    (finishes : Finishes middle behind more (next value))
    (refuses : Refuses behind (next value) after error stop usedNext) :
    Refuses behind (reader.andThen next) cursor error stop
      (used ++ usedNext) where
  rest_eq := by rw [passes.rest_eq, refuses.rest_eq, List.append_assoc]
  inside := passes.inside.append refuses.inside
  refused := refuses.refused
  completes := fun _ => by
    by_cases empty : usedNext = []
    · -- What comes behind the reader has not begun, so it is finished from its
      -- beginning.
      subst empty
      refine ⟨more, finishes.inside, fun rest fits => ?_⟩
      rw [List.append_nil,
        Reader.andThen_of_ok (passes.again _ (.inr (finishes.fit rest fits)))]
      exact finishes.leaves rest _ fits
    · obtain ⟨completion, inside, leaves⟩ := refuses.completes empty
      refine ⟨completion, inside, fun rest fits => ?_⟩
      rw [List.append_assoc, Reader.andThen_of_ok (passes.again _ (.inl ?_))]
      · exact leaves rest fits
      · rw [refuses.rest_eq, List.head?_append_of_ne_nil _ empty,
          List.head?_append_of_ne_nil _ empty]
  again := fun rest seen alike => by
    rw [List.append_assoc, Reader.andThen_of_ok (passes.again _ (.inl ?_))]
    · exact refuses.again rest seen alike
    · rw [refuses.rest_eq]
      simp [List.head?_append, alike]

end Passes

namespace Foresees

theorem tooDeep :
    Foresees idle behind reader cursor
      (.error ⟨.nestedTooDeep, cursor.position⟩) := .inl ⟨_, rfl⟩

theorem mono_idle
    (foresees : Foresees idle behind reader cursor parsed)
    (weaker : ∀ rest, idle rest → moreIdle rest) :
    Foresees moreIdle behind reader cursor parsed := by
  cases parsed with
  | ok read =>
      obtain ⟨used, passes⟩ := foresees
      exact ⟨used,
        { passes with
          idle_of_nil := fun empty rest fits =>
            weaker rest (passes.idle_of_nil empty rest fits) }⟩
  | error error => exact foresees

/-- A reader that always moves does not care what stands behind what. -/
theorem moved (foresees : Foresees Nothing behind reader cursor parsed) :
    Foresees idle behind reader cursor parsed :=
  foresees.mono_idle fun _ => False.elim

theorem mono_behind
    (foresees : Foresees idle middle reader cursor parsed)
    (fewer : ∀ rest, behind rest → middle rest) :
    Foresees idle behind reader cursor parsed := by
  cases parsed with
  | ok read =>
      obtain ⟨used, passes⟩ := foresees
      exact ⟨used,
        { passes with
          idle_of_nil := fun empty rest fits =>
            passes.idle_of_nil empty rest (fewer rest fits)
          again := fun rest follows =>
            passes.again rest (follows.imp_right (fewer rest)) }⟩
  | error error =>
      refine foresees.imp_right fun ⟨stop, used, refuses⟩ =>
          ⟨stop, used, { refuses with
        completes := fun some => ?_ }⟩
      obtain ⟨more, inside, leaves⟩ := refuses.completes some
      exact ⟨more, inside, fun rest fits => leaves rest (fewer rest fits)⟩

theorem narrow (foresees : Foresees idle Anything reader cursor parsed) :
    Foresees idle behind reader cursor parsed :=
  foresees.mono_behind fun _ _ => trivial

/-- What is known of a reader is known of another one that does the same at the
same token. -/
theorem congr {other : Reader α}
    (same : ∀ there, cursor.Alike there → reader there = other there)
    (quiet : ∀ rest, behind rest → idle rest → reader ⟨rest, cursor.previous⟩ =
      other ⟨rest, cursor.previous⟩)
    (foresees : Foresees idle behind other cursor parsed) :
    Foresees idle behind reader cursor parsed := by
  have same_of_ne_nil : ∀ {used : List Token} {stop rest : List Token},
      cursor.rest = used ++ stop →
      used ≠ [] → reader ⟨used ++ rest, cursor.previous⟩ =
        other ⟨used ++ rest, cursor.previous⟩ := by
    intro used stop rest rest_eq some
    refine same _ ⟨?_, rfl⟩
    rw [rest_eq, List.head?_append_of_ne_nil _ some,
      List.head?_append_of_ne_nil _ some]
  cases parsed with
  | ok read =>
      obtain ⟨used, passes⟩ := foresees
      refine ⟨used, { passes with again := fun rest follows => ?_ }⟩
      rw [← passes.again rest follows]
      by_cases empty : used = []
      · subst empty
        rcases follows with alike | fits
        · exact same _ ⟨by rw [passes.rest_eq]; exact alike, rfl⟩
        · exact quiet rest fits (passes.idle_of_nil rfl rest fits)
      · exact same_of_ne_nil passes.rest_eq empty
  | error error =>
      refine foresees.imp_right fun ⟨stop, used, refuses⟩ =>
          ⟨stop, used, { refuses with
        completes := fun some => ?_
        again := fun rest seen alike => ?_ }⟩
      · obtain ⟨more, inside, leaves⟩ := refuses.completes some
        refine ⟨more, inside, fun rest fits => ?_⟩
        rw [same_of_ne_nil refuses.rest_eq some]
        exact leaves rest fits
      · rw [← refuses.again rest seen alike]
        by_cases empty : used = []
        · subst empty
          exact same _ ⟨by rw [refuses.rest_eq]; exact alike, rfl⟩
        · exact same_of_ne_nil refuses.rest_eq empty

/-- Where a reader always moves, it is enough to look at the next token. -/
theorem congr_moved
    (other : Reader α)
    (same : ∀ there, cursor.Alike there → reader there = other there)
    (foresees : Foresees Nothing behind other cursor parsed) :
    Foresees idle behind reader cursor parsed :=
  (foresees.congr same fun _ _ => False.elim).moved

theorem give {result : α} (quiet : ∀ rest, behind rest → idle rest) :
    Foresees idle behind (Reader.give result) cursor (.ok (result, cursor)) :=
  ⟨[], { rest_eq := rfl, inside := .nil, idle_of_nil := fun _ => quiet, again :=
    fun _ _ => rfl }⟩

theorem done {result : α} :
    Foresees Anything behind (Reader.give result) cursor
      (.ok (result, cursor)) := give fun _ _ => trivial

/-- Refusing the next token. -/
theorem refuse {wanted : Expectation}
    (same : ∀ there, cursor.Alike there →
      reader there = .error (there.refuse wanted)) :
    Foresees idle behind reader cursor (.error (cursor.refuse wanted)) := by
  refine .inr ⟨cursor, [],
    { rest_eq := rfl
      inside := .nil
      refused := ⟨wanted, rfl⟩
      completes := fun some => absurd rfl some
      again := fun rest _ alike => ?_ }⟩
  have there : cursor.Alike ⟨rest, cursor.previous⟩ := ⟨alike, rfl⟩
  exact (same _ there).trans (congrArg _ (there.refuse wanted))

/-- Going on behind the next token. -/
theorem step
    (next : Reader α)
    {kind : TokenKind}
    (peeked : cursor.peek? = some kind)
    (same : ∀ there, cursor.Alike there → reader there = next there.advance)
    (finishes : Finishes front behind more next)
    (inner : Foresees moreIdle behind next cursor.advance parsed) :
    Foresees idle behind reader cursor parsed := by
  obtain ⟨token, rest_eq, _, inside, previous_eq⟩ :=
    Cursor.rest_eq_of_peek? peeked
  have reads : ∀ rest, reader ⟨token :: rest, cursor.previous⟩ =
      next ⟨rest, cursor.advance.previous⟩ := by
    intro rest
    have alike : cursor.Alike ⟨token :: rest, cursor.previous⟩ :=
      ⟨by rw [rest_eq]; rfl, rfl⟩
    rw [same _ alike, previous_eq]
    simp [Cursor.advance, inside]
  cases parsed with
  | ok read =>
      obtain ⟨used, passes⟩ := inner
      exact ⟨token :: used,
        { rest_eq := by rw [rest_eq, passes.rest_eq]; rfl
          inside := .cons inside passes.inside
          idle_of_nil := fun empty => by cases empty
          again := fun rest follows =>
            (reads _).trans (passes.again rest follows) }⟩
  | error error =>
      rcases inner with tooDeep | ⟨stop, used, refuses⟩
      · exact .inl tooDeep
      refine .inr ⟨stop, token :: used,
        { rest_eq := by rw [rest_eq, refuses.rest_eq]; rfl
          inside := .cons inside refuses.inside
          refused := refuses.refused
          completes := fun _ => ?_
          again := fun rest seen alike =>
            (reads _).trans (refuses.again rest seen alike) }⟩
      by_cases empty : used = []
      · subst empty
        exact ⟨more, finishes.inside, fun rest fits =>
          reads (more ++ rest) ▸ finishes.leaves rest _ fits⟩
      · obtain ⟨completion, completionInside, leaves⟩ := refuses.completes empty
        exact ⟨completion, completionInside, fun rest fits =>
          reads (used ++ (completion ++ rest)) ▸ leaves rest fits⟩

/-- Going on behind what a reader has read. -/
theorem andThen [Nonempty α]
    {later : α × Cursor → Except SourceError (β × Cursor)} {next : α → Reader β}
    (early : Foresees idle middle reader cursor parsed)
    (finishes : ∀ value, Finishes middle behind more (next value))
    (late : ∀ value after, Foresees middle behind (next value) after
      (later (value, after))) :
    Foresees idle behind (reader.andThen next) cursor (parsed >>= later) := by
  cases parsed with
  | error error =>
      rcases early with tooDeep | ⟨stop, used, refuses⟩
      · exact .inl tooDeep
      · exact .inr ⟨stop, used, refuses.andThen finishes⟩
  | ok read =>
      obtain ⟨value, after⟩ := read
      obtain ⟨used, passes⟩ := early
      show Foresees idle behind (reader.andThen next) cursor
        (later (value, after))
      have follows := late value after
      cases continued : later (value, after) with
      | ok read =>
          rw [continued] at follows
          obtain ⟨usedNext, passesNext⟩ := follows
          exact ⟨used ++ usedNext, passes.andThen passesNext⟩
      | error error =>
          rw [continued] at follows
          rcases follows with tooDeep | ⟨stop, usedNext, refuses⟩
          · exact .inl tooDeep
          · exact .inr ⟨stop, used ++ usedNext,
              passes.andThen_refuses (finishes value) refuses⟩

theorem behindMark {mark : Mark}
    {later : Cursor → Except SourceError (α × Cursor)}
    (finishes : Finishes front behind more next)
    (late : Foresees moreIdle behind next cursor.advance
      (later cursor.advance)) :
    Foresees idle behind (Reader.behindMark mark next) cursor
      (cursor.expect mark >>= later) := by
  unfold Cursor.expect
  split
  next seen =>
    refine step next (of_decide_eq_true seen) (fun there alike => ?_)
      finishes late
    rw [Reader.behindMark, Cursor.expect, alike.sees, if_pos seen]
    rfl
  next unseen =>
    refine refuse fun there alike => ?_
    rw [Reader.behindMark, Cursor.expect, alike.sees, if_neg unseen]
    rfl

theorem map [Nonempty α]
    {later : α × Cursor → Except SourceError (β × Cursor)} {change : α → β}
    (early : Foresees idle behind reader cursor parsed)
    (late : ∀ value after, later (value, after) = .ok (change value, after)) :
    Foresees idle behind (reader.map change) cursor (parsed >>= later) :=
  early.andThen (fun _ => .give _ fun _ => id) fun value after =>
    late value after ▸ .give fun _ => id

end Foresees

end Calculus

end Parser

end EffectScript
