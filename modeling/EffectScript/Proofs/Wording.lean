import EffectScript.Proofs.Identifiers
import EffectScript.Proofs.Promotion
import EffectScript.Proofs.TokenCoverage

/-!
# The names in compiled functions

A compiled function holds names in many places: its own, those of globals and
effects that operands refer to, those of its slots, and those in its comments.
All of them come from the text of the program: they are identifiers of the text
or, for the clause of an attempt, made of one. So whatever holds of the
identifiers, and is kept when the name of a clause is made of the name of its
effect, holds of all names in compiled functions.
-/

namespace EffectScript

/-! ## The names in the words of a program -/

/-- The names among the words are allowed. -/
def OnlyNames (allowed : String → Prop) (words : List Word) : Prop :=
  ∀ word ∈ words, ∀ name, word.kind = .ident name → allowed name

namespace OnlyNames

variable {allowed : String → Prop} {words more : List Word} {word : Word}
    {position : Position}

theorem append_iff :
    OnlyNames allowed (words ++ more) ↔ OnlyNames allowed words ∧
    OnlyNames allowed more := List.forall_mem_append

theorem cons_iff : OnlyNames allowed (word :: words) ↔
    (∀ name, word.kind = .ident name → allowed name) ∧
      OnlyNames allowed words := List.forall_mem_cons

/-- Marks and reserved words are no names. -/
theorem cons_other_iff (other : ∀ name, word.kind ≠ .ident name) :
    OnlyNames allowed (word :: words) ↔ OnlyNames allowed words :=
  cons_iff.trans (and_iff_right fun name same => absurd same (other name))

theorem mark_iff {sign : Mark} :
    OnlyNames allowed (.mark sign :: words) ↔ OnlyNames allowed words :=
  cons_other_iff fun _ same => by cases same

theorem keyword_iff {keyword : Keyword} :
    OnlyNames allowed (.keyword keyword :: words) ↔ OnlyNames allowed words :=
  cons_other_iff fun _ same => by cases same

theorem ident_iff {name : String} :
    OnlyNames allowed (.ident name :: words) ↔ allowed name ∧
    OnlyNames allowed words :=
  cons_iff.trans
    (and_congr_left' ⟨fun all => all name rfl, fun isAllowed _ same => by
    cases same
    exact isAllowed⟩)

theorem beginningAt_iff :
    OnlyNames allowed (beginningAt position words) ↔
    OnlyNames allowed words := by
  induction words with
  | nil => rfl
  | cons word words inner =>
      unfold beginningAt
      split
      · rw [cons_iff, cons_iff]
      · rw [cons_iff, cons_iff, inner]

theorem parenthesised_iff :
    OnlyNames allowed (parenthesised words) ↔ OnlyNames allowed words := by
  rw [parenthesised, List.cons_append, mark_iff, append_iff, mark_iff]
  exact and_iff_left fun _ member => by cases member

theorem inContext_iff {context : Nat} {expression : Expr} :
    OnlyNames allowed (expression.inContext context words) ↔
    OnlyNames allowed words := by
  unfold Expr.inContext
  split
  · exact parenthesised_iff
  · rfl

theorem nameWords_iff {names : List String} :
    OnlyNames allowed (nameWords names) ↔ ∀ name ∈ names, allowed name := by
  cases names with
  | nil => simp [nameWords, OnlyNames]
  | cons first others =>
      rw [nameWords, ident_iff, List.forall_mem_cons]
      refine and_congr_right' ?_
      induction others with
      | nil => simp [OnlyNames]
      | cons next others inner =>
          rw [List.flatMap_cons, List.cons_append, mark_iff,
            List.cons_append, ident_iff, List.nil_append, inner,
            List.forall_mem_cons]

theorem separatedWords_iff {separator : Mark} {first : Expr}
    {others : List Expr} :
    OnlyNames allowed (separatedWords separator (first :: others)) ↔
      OnlyNames allowed first.words ∧
      OnlyNames allowed (separatedWords separator others) := by
  rw [separatedWords, append_iff]
  refine and_congr_right' ?_
  cases others with
  | nil => rfl
  | cons next others =>
      rw [furtherWords, List.cons_append, mark_iff, separatedWords]

end OnlyNames

/-! ## Functions whose names are allowed -/

/-- All names in a function and in those inside it are allowed. -/
inductive Template.Named (allowed : String → Prop) : Template → Prop
  | intro {template : Template} (name : allowed template.name)
      (names : ∀ name ∈ template.names, allowed name)
      (slots : ∀ entry ∈ template.debug.slotNames, allowed entry.1)
      (comments : ∀ entry ∈ template.debug.comments, allowed entry.2)
      (functions : ∀ identity inner, .function identity inner ∈
          template.constants →
        Named allowed inner) : Named allowed template

theorem Template.Named.of_contains {allowed : String → Prop}
    {template inner : Template}
    (named : template.Named allowed)
    (contains : template.Contains inner) :
    inner.Named allowed := by
  induction contains with
  | itself => exact named
  | constant _ member within =>
      cases within with
      | intro _ _ _ _ functions => exact functions _ _ member

/-- All names in a function under construction and in the finished ones inside
it are allowed. -/
structure Draft.Named (allowed : String → Prop) (draft : Draft) : Prop where
  name : allowed draft.name
  names : ∀ name ∈ draft.names, allowed name
  slots : ∀ entry ∈ draft.slots, allowed entry.1
  comments : ∀ entry ∈ draft.debug.comments, allowed entry.2
  functions : ∀ identity inner, .function identity inner ∈ draft.constants →
    inner.Named allowed

/-- All names in the functions under construction are allowed. -/
structure Nest.Named (allowed : String → Prop) (nest : Nest) : Prop where
  current : nest.current.Named allowed
  enclosing : ∀ draft ∈ nest.enclosing, draft.Named allowed

/-- If the compiler accepts, the result is good. -/
abbrev Leaves {α : Type}
    (good : α → Prop)
    (computation : Except CompileError α) : Prop :=
  Outcome.Ends (fun _ : CompileError => True) good computation

section Lowering

variable {allowed : String → Prop}

/-! ## Drafts -/

namespace Draft.Named

variable {draft : Draft} {name : String} (named : draft.Named allowed)

include named

theorem emit (opcode : Opcode) (operands : List UInt8) (line : UInt32) :
    (draft.emit opcode operands line).Named allowed :=
  { named with }

theorem label : draft.label.Named allowed :=
  { named with }

theorem discard (nils : StatementNils) (line : UInt32) :
    (draft.discard nils line).Named allowed := by
  unfold Draft.discard
  split
  · split
    · exact { named with }
    · exact named.emit _ _ _
  · exact named.emit _ _ _

theorem promote (slot : UInt8) : (draft.promote slot).Named allowed := by
  unfold Draft.promote
  split
  · exact named
  · exact { named with }

theorem declare (isAllowed : allowed name) (line : UInt32) :
    Leaves (fun declared => declared.2.Named allowed)
      (draft.declare name line) := by
  unfold Draft.declare
  split
  · exact { named with
      slots := by
        rw [Draft.slots_addSlot]
        exact List.forall_mem_cons.2 ⟨isAllowed, named.slots⟩ }
  · trivial

theorem declareAll {names : List String}
    (areAllowed : ∀ name ∈ names, allowed name)
    (line : UInt32) :
    Leaves (Draft.Named allowed) (draft.declareAll line names) := by
  induction names generalizing draft with
  | nil => exact named
  | cons name names inner =>
      obtain ⟨isAllowed, others⟩ := List.forall_mem_cons.1 areAllowed
      exact (named.declare isAllowed line).bind fun declared kept =>
        inner kept others

theorem declareCapture
    (isAllowed : allowed name) (outerSlot : UInt8) (line : UInt32) :
    Leaves (fun declared => declared.2.Named allowed)
      (draft.declareCapture name outerSlot line) :=
  (named.declare isAllowed line).bind fun _ kept => { kept with }

theorem patchTo (origin : Nat) (line : UInt32) :
    Leaves (Draft.Named allowed) (draft.patchTo origin line) := by
  unfold Draft.patchTo
  simp only
  split
  · exact { named with }
  · trivial

theorem emitLoop (destination : Nat) (line : UInt32) :
    Leaves (Draft.Named allowed) (draft.emitLoop destination line) := by
  unfold Draft.emitLoop
  simp only
  split
  · exact named.emit _ _ _
  · trivial

theorem nameIndex (isAllowed : allowed name) (line : UInt32) :
    Leaves (fun indexed => indexed.2.Named allowed)
      (draft.nameIndex name line) := by
  unfold Draft.nameIndex
  split
  · exact named
  · split
    · exact { named with
        names := List.forall_mem_append.2
          ⟨named.names, List.forall_mem_singleton.2 isAllowed⟩ }
    · trivial

theorem addConstant {value : Value}
    (functions : ∀ identity inner, value = .function identity inner →
      inner.Named allowed)
    (line : UInt32) :
    Leaves (fun pooled => pooled.2.Named allowed)
      (draft.addConstant value line) := by
  unfold Draft.addConstant
  split
  · exact named
  · split
    · refine { named with functions := fun identity inner member => ?_ }
      rcases List.mem_append.1 member with held | added
      · exact named.functions identity inner held
      · exact functions identity inner (List.mem_singleton.1 added).symm
    · trivial

theorem addComment (isAllowed : allowed name) (line : UInt32) :
    (draft.addComment name line).Named allowed := by
  refine { named with comments := fun entry member => ?_ }
  rcases Dictionary.mem_insert member with rfl | held
  · exact isAllowed
  · exact named.comments entry held

theorem finish : draft.finish.Named allowed :=
  .intro named.name named.names
    (fun entry member => named.slots entry (List.mem_reverse.2 member))
    named.comments named.functions

end Draft.Named

theorem Draft.start_allowed {name : String}
    {parameters : List String}
    (isAllowed : allowed name)
    (areAllowed : ∀ parameter ∈ parameters, allowed parameter)
    (line : UInt32) :
    Leaves (Draft.Named allowed) (Draft.start name parameters line) := by
  have empty :
      ({ name := name, arity := parameters.length } : Draft).Named allowed :=
    ⟨isAllowed, by simp, by simp [Draft.slots], by simp, by simp⟩
  exact empty.declareAll (List.forall_mem_cons.2 ⟨isAllowed, areAllowed⟩) line

/-! ## Nests -/

namespace Nest.Named

variable {nest : Nest} {name : String} (named : nest.Named allowed)

include named

theorem write {draft : Draft} (written : draft.Named allowed) :
    ({ nest with current := draft } : Nest).Named allowed :=
  ⟨written, named.enclosing⟩

theorem emit (opcode : Opcode) (operands : List UInt8) (line : UInt32) :
    (nest.emit opcode operands line).Named allowed :=
  named.write (named.current.emit _ _ _)

theorem emitStatementNil (line : UInt32) :
    (nest.emitStatementNil line).Named allowed :=
  named.write { named.current with }

theorem discard (nils : StatementNils) (line : UInt32) :
    (nest.discard nils line).Named allowed :=
  named.write (named.current.discard nils line)

theorem emitStore (target : StoreTarget) (line : UInt32) :
    (nest.emitStore target line).Named allowed := by
  cases target <;> exact named.emit _ _ _

omit named in
theorem resolveFrom
    (isAllowed : allowed name) (line : UInt32)
    {current : Draft} {enclosing : List Draft}
    (named : current.Named allowed)
    (around : ∀ draft ∈ enclosing, draft.Named allowed) :
    Leaves (fun resolved => resolved.2.1.Named allowed ∧ ∀ draft ∈ resolved.2.2,
      draft.Named allowed)
      (Nest.resolveFrom name line current enclosing) := by
  induction enclosing generalizing current with
  | nil => exact ⟨named, around⟩
  | cons outer beyond inner =>
      unfold Nest.resolveFrom
      split
      · exact ⟨named, around⟩
      · split
        · exact ⟨named, around⟩
        · obtain ⟨outerNamed, beyondNamed⟩ := List.forall_mem_cons.1 around
          refine (inner outerNamed beyondNamed).bind
            fun ⟨found, outerAfter, beyondAfter⟩ ⟨kept, others⟩ => ?_
          simp only at kept others ⊢
          split
          · exact ⟨named, List.forall_mem_cons.2 ⟨kept, others⟩⟩
          · refine (named.declareCapture isAllowed _ _).bind
              fun _ captured => ?_
            exact ⟨captured, List.forall_mem_cons.2 ⟨kept.promote _, others⟩⟩

theorem resolve (isAllowed : allowed name) (line : UInt32) :
    Leaves (fun resolved => resolved.2.Named allowed)
      (nest.resolve name line) :=
  (resolveFrom isAllowed line named.current named.enclosing).bind fun _ kept =>
    ⟨kept.1, kept.2⟩

theorem nameIndex (isAllowed : allowed name) (line : UInt32) :
    Leaves (fun indexed => indexed.2.Named allowed)
      (nest.nameIndex name line) :=
  (named.current.nameIndex isAllowed line).bind fun _ kept => named.write kept

theorem emitNamed (opcode : Opcode) (isAllowed : allowed name) (line : UInt32) :
    Leaves (Nest.Named allowed) (nest.emitNamed opcode name line) :=
  (named.nameIndex isAllowed line).bind fun _ kept => kept.emit _ _ _

theorem emitConstant {value : Value}
    (plain : ∀ identity inner, value ≠ .function identity inner)
    (line : UInt32) :
    Leaves (Nest.Named allowed) (nest.emitConstant value line) :=
  (named.current.addConstant
    (fun identity inner same => absurd same (plain identity inner)) line).bind
    fun _ kept => (named.write kept).emit _ _ _

theorem emitClosure {template : Template}
    (inside : template.Named allowed)
    (line : UInt32) :
    Leaves (Nest.Named allowed) (nest.emitClosure template line) := by
  refine (named.current.addConstant (fun identity inner same => ?_) line).bind
    fun pooled kept => ?_
  · injection same with _ same
    exact same ▸ inside
  · exact ⟨kept.emit _ _ _, named.enclosing⟩

theorem loadVariable (isAllowed : allowed name) (line : UInt32) :
    Leaves (Nest.Named allowed) (nest.loadVariable name line) := by
  unfold Nest.loadVariable
  split
  · trivial
  · refine (named.resolve isAllowed line).bind fun ⟨found, resolved⟩ kept => ?_
    cases found with
    | some slot => exact kept.emit _ _ _
    | none => exact kept.emitNamed _ isAllowed line

theorem storeTarget (isAllowed : allowed name) (line : UInt32) :
    Leaves (fun targeted => targeted.2.Named allowed)
      (nest.storeTarget name line) := by
  refine (named.resolve isAllowed line).bind fun ⟨found, resolved⟩ kept => ?_
  cases found with
  | some slot => exact kept
  | none =>
      simp only
      split
      · exact (kept.nameIndex isAllowed line).bind fun _ indexed => indexed
      · exact (kept.current.declare isAllowed line).bind fun _ declared =>
          kept.write declared

theorem patchJump (site : Nat) (line : UInt32) :
    Leaves (Nest.Named allowed) (nest.patchJump site line) :=
  (named.current.patchTo _ line).bind fun _ kept => named.write kept

theorem patchHandlers (line : UInt32) (sites : List Nat) :
    Leaves (Nest.Named allowed) (nest.patchHandlers line sites) := by
  induction sites generalizing nest with
  | nil => exact named
  | cons site sites inner =>
      exact (named.current.patchTo _ line).bind fun _ kept =>
        inner (named.write kept)

theorem literal (value : Literal) (line : UInt32) :
    Leaves (Nest.Named allowed) (nest.literal value line) := by
  cases value with
  | nil => exact named.emit _ _ _
  | bool truth => cases truth <;> exact named.emit _ _ _
  | int number => exact named.emitConstant (by simp) line
  | str text => exact named.emitConstant (by simp) line
  | float number => trivial

theorem enter {draft : Draft} (begun : draft.Named allowed) (line : UInt32) :
    (nest.enter draft line).Named allowed :=
  ⟨begun.addComment begun.name line,
    List.forall_mem_cons.2 ⟨named.current, named.enclosing⟩⟩

theorem emitReturn (line : UInt32) : (nest.emitReturn line).Named allowed :=
  named.emit _ _ _

/-- Ending a function leaves a finished one and those around it. -/
theorem leave {outer : Nest} (around : outer.Named allowed) (line : UInt32) :
    (nest.leave outer line).1.Named allowed ∧
    (nest.leave outer line).2.Named allowed := by
  refine ⟨(named.emitReturn line).current.finish, ?_, fun draft member => ?_⟩
  · show (nest.enclosing.headD outer.current).Named allowed
    cases enclosing : nest.enclosing with
    | nil => exact around.current
    | cons first others =>
        exact named.enclosing first (enclosing ▸ List.mem_cons_self)
  · exact named.enclosing draft (List.mem_of_mem_tail member)

end Nest.Named

/-! ## Expressions -/

open OnlyNames

/-- Names that are allowed in compiled functions: that of the script is, and
with an effect so is the name of a clause for it. -/
structure Wording where
  allows : String → Prop
  script : allows scriptName
  clause : ∀ effect, allows effect → allows (handlerName effect)

variable {wording : Wording}

mutual

/-- Lowering an expression with allowed names brings no other names. -/
theorem lowerExpr_named (nils : StatementNils) :
    (expression : Expr) → {nest : Nest} →
      OnlyNames wording.allows expression.words → nest.Named wording.allows →
        Leaves (Nest.Named wording.allows) (lowerExpr nils expression nest)
  | .ident name position, nest, only, named => by
      rw [lowerExpr]
      exact named.loadVariable (ident_iff.1 (beginningAt_iff.1 only)).1 _
  | .literal value position, nest, only, named => by
      rw [lowerExpr]
      exact named.literal value _
  | .binary op left right position, nest, only, named => by
      rw [Expr.words, beginningAt_iff, append_iff, mark_iff, inContext_iff,
        inContext_iff] at only
      rw [lowerExpr]
      refine (lowerExpr_named nils left only.1 named).bind
        fun afterLeft kept => ?_
      refine (lowerExpr_named nils right only.2 kept).bind
        fun afterRight kept => ?_
      simp only
      split
      · exact (kept.emit _ _ _).emit _ _ _
      · exact kept.emit _ _ _
  | .unary op operand position, nest, only, named => by
      rw [Expr.words, beginningAt_iff, mark_iff, inContext_iff] at only
      rw [lowerExpr]
      exact (lowerExpr_named nils operand only named).bind fun _ kept =>
        kept.emit _ _ _
  | .call callee arguments position, nest, only, named => by
      rw [Expr.words, beginningAt_iff, append_iff, inContext_iff,
        parenthesised_iff] at only
      rw [lowerExpr]
      refine (lowerExpr_named nils callee only.1 named).bind
        fun afterCallee kept => ?_
      refine (lowerArguments_named nils arguments only.2 kept).bind
        fun _ kept => ?_
      split
      · exact kept.emit _ _ _
      · trivial
  | .assign target value position, nest, only, named => by
      rw [Expr.words, beginningAt_iff, append_iff, inContext_iff, mark_iff]
        at only
      cases target with
      | ident name place =>
          have isAllowed := (ident_iff.1 (beginningAt_iff.1 only.1)).1
          rw [lowerExpr]
          refine (lowerExpr_named nils value only.2 named).bind
            fun afterValue kept => ?_
          refine (kept.storeTarget isAllowed _).bind
            fun ⟨target, targeted⟩ kept => ?_
          exact (kept.emitStore target _).emitStatementNil _
      | _ => trivial
  | .define name parameters body position, nest, only, named => by
      rw [Expr.words, beginningAt_iff, append_iff, keyword_iff, ident_iff,
        parenthesised_iff, nameWords_iff] at only
      obtain ⟨⟨isAllowed, areAllowed⟩, inside⟩ := only
      rw [lowerExpr]
      refine (named.storeTarget isAllowed _).bind
        fun ⟨target, targeted⟩ kept => ?_
      refine (Draft.start_allowed isAllowed areAllowed _).bind
        fun draft begun => ?_
      refine (lowerBlock_named nils body inside (kept.enter begun _)).bind
        fun afterBody written => ?_
      obtain ⟨finished, kept⟩ := written.leave kept position.debugLine
      refine (kept.emitClosure finished _).bind fun pushed kept => ?_
      exact (kept.emitStore target _).emitStatementNil _
  | .block body, nest, only, named => by
      rw [lowerExpr]
      exact lowerBlock_named nils body only named
  | .branch condition consequence alternative position, nest, only, named => by
      rw [Expr.words, beginningAt_iff, append_iff, append_iff, keyword_iff]
        at only
      rw [lowerExpr]
      refine (lowerExpr_named nils condition only.1.1 named).bind
        fun afterCondition kept => ?_
      refine (lowerBlock_named nils consequence only.1.2 (kept.emit _ _ _)).bind
        fun _ kept => ?_
      refine ((kept.emit _ _ _).patchJump _ _).bind fun elsePatched kept => ?_
      exact (lowerAlternative_named nils alternative only.2 kept).bind
        fun _ kept => kept.patchJump _ _
  | .loop condition body position, nest, only, named => by
      rw [Expr.words, beginningAt_iff, append_iff, keyword_iff] at only
      rw [lowerExpr]
      refine (lowerExpr_named nils condition only.1
        (named.write named.current.label)).bind
        fun afterCondition kept => ?_
      refine (lowerBlock_named nils body only.2 (kept.emit _ _ _)).bind
        fun afterBody kept => ?_
      have discarded := kept.discard nils position.debugLine
      refine (discarded.current.emitLoop _ _).bind fun looped looping => ?_
      exact ((discarded.write looping).patchJump _ _).bind fun _ kept =>
        kept.emitStatementNil _
  | .attempt body clauses position, nest, only, named => by
      rw [Expr.words, beginningAt_iff, append_iff, keyword_iff] at only
      rw [lowerExpr]
      split
      · refine (lowerClauses_named nils clauses only.2 named).bind
          fun ⟨sites, registered⟩ kept => ?_
        refine (lowerBlock_named nils body only.1 kept).bind
          fun afterBody kept => ?_
        exact (kept.emit _ _ _).patchHandlers _ sites
      · trivial
  | .perform effect payload position, nest, only, named => by
      rw [Expr.words, beginningAt_iff, keyword_iff, ident_iff,
        parenthesised_iff] at only
      rw [lowerExpr]
      refine (lowerPayload_named nils payload only.2 named).bind
        fun afterPayload kept => ?_
      exact kept.emitNamed _ only.1 _

theorem lowerAlternative_named (nils : StatementNils) :
    (alternative : Option Expr) → {line : UInt32} →
      {nest : Nest} → OnlyNames wording.allows (alternativeWords alternative) →
      nest.Named wording.allows →
        Leaves (Nest.Named wording.allows)
          (lowerOptional nils alternative line nest)
  | none, _, nest, _, named => by
      rw [lowerOptional]
      exact named.emit _ _ _
  | some alternative, _, nest, only, named => by
      rw [lowerOptional]
      exact lowerExpr_named nils alternative (keyword_iff.1 only) named

theorem lowerPayload_named (nils : StatementNils) :
    (payload : Option Expr) → {line : UInt32} →
      {nest : Nest} → OnlyNames wording.allows (payloadWords payload) →
      nest.Named wording.allows →
        Leaves (Nest.Named wording.allows)
          (lowerOptional nils payload line nest)
  | none, _, nest, _, named => by
      rw [lowerOptional]
      exact named.emit _ _ _
  | some payload, _, nest, only, named => by
      rw [lowerOptional]
      exact lowerExpr_named nils payload only named

theorem lowerArguments_named (nils : StatementNils) :
    (arguments : List Expr) → {nest : Nest} →
      OnlyNames wording.allows (separatedWords .comma arguments) →
      nest.Named wording.allows →
        Leaves (Nest.Named wording.allows) (lowerArguments nils arguments nest)
  | [], nest, _, named => by
      rw [lowerArguments]
      exact named
  | first :: others, nest, only, named => by
      rw [separatedWords_iff] at only
      rw [lowerArguments]
      exact (lowerExpr_named nils first only.1 named).bind fun _ kept =>
        lowerArguments_named nils others only.2 kept

theorem lowerBlock_named (nils : StatementNils) :
    (block : Block) → {nest : Nest} →
      OnlyNames wording.allows block.words → nest.Named wording.allows →
        Leaves (Nest.Named wording.allows) (lowerBlock nils block nest)
  | ⟨expressions, position⟩, nest, only, named => by
      rw [Block.words, beginningAt_iff, append_iff, mark_iff] at only
      rw [lowerBlock]
      split
      · exact named.emitStatementNil _
      · exact lowerSequence_named nils expressions only.1 named

theorem lowerSequence_named (nils : StatementNils) :
    (expressions : List Expr) → {nest : Nest} →
      OnlyNames wording.allows (separatedWords .semicolon expressions) →
      nest.Named wording.allows →
        Leaves (Nest.Named wording.allows) (lowerSequence nils expressions nest)
  | [], nest, _, named => by
      rw [lowerSequence]
      exact named
  | first :: others, nest, only, named => by
      rw [separatedWords_iff] at only
      rw [lowerSequence]
      refine (lowerExpr_named nils first only.1 named).bind
        fun afterFirst kept => ?_
      split
      · exact kept
      · exact lowerSequence_named nils others only.2 (kept.discard nils _)

theorem lowerClauses_named (nils : StatementNils) :
    (clauses : List Clause) → {nest : Nest} →
      OnlyNames wording.allows (clauseWords clauses) →
      nest.Named wording.allows →
        Leaves (fun registered => registered.2.Named wording.allows)
          (lowerClauses nils clauses nest)
  | [], nest, _, named => by
      rw [lowerClauses]
      exact named
  | ⟨effect, parameter, body, position⟩ :: others, nest, only, named => by
      rw [clauseWords, append_iff, beginningAt_iff, append_iff,
        keyword_iff, ident_iff, parenthesised_iff, ident_iff] at only
      obtain ⟨⟨⟨effectAllowed, parameterAllowed, _⟩, inside⟩, later⟩ := only
      rw [lowerClauses]
      refine (Draft.start_allowed (wording.clause effect effectAllowed)
        (List.forall_mem_singleton.2 parameterAllowed) _).bind
          fun draft begun => ?_
      refine (lowerBlock_named nils body inside (named.enter begun _)).bind
        fun afterBody written => ?_
      obtain ⟨finished, kept⟩ := written.leave named position.debugLine
      refine (kept.emitClosure finished _).bind fun pushed kept => ?_
      refine (kept.nameIndex effectAllowed _).bind fun ⟨index, named⟩ kept => ?_
      refine (lowerClauses_named nils others later (kept.emit _ _ _)).bind
        fun registered kept => ?_
      exact kept

end

/-- All names in the functions of a program are allowed when those in its text
are. -/
theorem Block.compileWith_namedBy
    (nils : StatementNils)
    {program : Block}
    (only : OnlyNames wording.allows program.programWords) :
    Leaves (Template.Named wording.allows) (program.compileWith nils) := by
  have inside : OnlyNames wording.allows program.words := by
    obtain ⟨expressions, position⟩ := program
    rw [Block.words, beginningAt_iff, append_iff, mark_iff]
    exact ⟨only, mark_iff.2 fun _ member => by cases member⟩
  refine (Draft.start_allowed wording.script (by simp) _).bind
    fun draft begun => ?_
  have named : (⟨draft, [], 0⟩ : Nest).Named wording.allows := ⟨begun, by simp⟩
  refine (lowerBlock_named nils program inside named).bind
    fun lowered kept => ?_
  exact (kept.emitReturn _).current.finish

/-! ## Source texts -/

theorem onlyNames_of_parse {allowed : String → Prop}
    {tokens : List Token} {program : Block}
    (spelled : ∀ token ∈ tokens, ∀ name, token.kind = .ident name →
      allowed name)
    (parsed : Block.parse tokens = .ok program) :
    OnlyNames allowed program.programWords := by
  obtain ⟨expressions, after, sequenceParsed, rfl⟩ := Block.parse_eq_ok.1 parsed
  obtain ⟨used, used_eq, _, written⟩ :=
    Parser.spends_sequence _ false _ _ _ sequenceParsed
  intro word member name identifier
  have kept : word ∈ essential (separatedWords .semicolon expressions) := by
    rw [essential, List.mem_filter, identifier]
    exact ⟨member, rfl⟩
  have among := List.mem_map_of_mem (f := Word.kind) kept
  rw [← kinds_of_written written] at among
  obtain ⟨token, present, same⟩ := List.mem_map.1 among
  refine spelled token ?_ name (same.trans identifier)
  rw [show tokens = used ++ after.rest from used_eq]
  exact List.mem_append_left _ (List.mem_filter.1 present).1

/-- All names in the functions of a source text are allowed when words are. -/
theorem compileSource_namedBy
    (wording : Wording)
    {source file : String} {script : Template}
    (words : ∀ name, isIdentifier name → wording.allows name)
    (compiled : compileSource source file = .ok script) :
    script.Named wording.allows := by
  obtain ⟨program, parsed, compiledProgram⟩ := compileSource_eq_ok.1 compiled
  obtain ⟨tokens, scanned, blockParsed⟩ := Outcome.bind_eq_ok.1 parsed
  have spelled : ∀ token ∈ tokens, ∀ name, token.kind = .ident name →
      wording.allows name :=
    fun token member name identifier =>
      words name (Lexer.scanFrom_spelled scanned token member name identifier)
  have named := Block.compileWith_namedBy .elided
    (onlyNames_of_parse spelled blockParsed)
  rwa [show program.compileWith .elided = _ from compiledProgram] at named

end Lowering

end EffectScript
