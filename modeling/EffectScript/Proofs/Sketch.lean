import EffectScript.Proofs.Promotion

/-!
# Sketches of programs

A sketch says what the text of a program tells about its functions before any
code is written: which names each of them reads and writes and how far out they
are declared, where its attempts and repetitions end, and which functions are
written inside it.

Names are declared in the order of the text. A function begins with its own name
and its parameters, a definition declares its name before its body, and an
assignment declares its target after its value, unless the name is known
already. The script declares nothing. Only the clauses of an attempt come before
its body, although they are written behind it, because their handlers are
registered before the body runs.

The second half of this module says what it means that a compiled function is as
its sketch tells.
-/

namespace EffectScript

/-! ## Sketches -/

/-- Something that the text of a function does at one place. -/
inductive Event where
  /-- A name is read. It is declared so many functions further out, or else it
  is a global. -/
  | reads (name : String) (level : Option Nat)
  /-- A name is assigned or defined. -/
  | writes (name : String) (level : Option Nat)
  /-- An attempt with so many clauses ends. -/
  | attempts (clauses : Nat)
  /-- A repetition ends. -/
  | repeats
deriving DecidableEq

/-- The name that is read or written. -/
def Event.name? : Event → Option String
  | .reads name _ | .writes name _ => some name
  | .attempts _ | .repeats => none

/-- A function of a program, as its text shows it. -/
structure Sketch where
  name : String
  parameters : List String
  /-- What happens in the function, in the order of the text. -/
  events : List Event
  /-- The functions directly inside it, in the order of the text. -/
  functions : List Sketch

/-- The order in which the two parts of an attempt are read. -/
inductive AttemptOrder where
  /-- The body first, as it is written. -/
  | bodyFirst
  /-- The clauses first, as their handlers are registered. -/
  | clausesFirst
deriving DecidableEq

/-- What is known about a function after the part of its text that was read so
far. -/
structure Survey where
  /-- The names declared in the function and in the functions around it other
  than the script, the innermost one first. -/
  scopes : List (List String)
  events : List Event := []
  functions : List Sketch := []

namespace Survey

/-- How many functions further out a name is declared. -/
def level? (survey : Survey) (name : String) : Option Nat :=
  survey.scopes.findIdx? fun scope => scope.contains name

/-- Records an event. -/
def notes (survey : Survey) (event : Event) : Survey :=
  { survey with events := survey.events ++ [event] }

/-- Records the read of a name. -/
def reads (survey : Survey) (name : String) : Survey :=
  survey.notes (.reads name (survey.level? name))

/-- Records the write of a name. -/
def writes (survey : Survey) (name : String) : Survey :=
  survey.notes (.writes name (survey.level? name))

/-- Declares a name in the function, unless it is the script or the name is
known already. -/
def declare (survey : Survey) (name : String) : Survey :=
  match survey.scopes with
  | [] => survey
  | own :: others =>
      if (survey.level? name).isSome then survey
      else { survey with scopes := (name :: own) :: others }

/-- The beginning of a function inside. -/
def inside (survey : Survey) (name : String) (parameters : List String) :
    Survey :=
  { scopes := (name :: parameters) :: survey.scopes }

/-- Records a function inside, after its whole text was read. -/
def encloses
    (survey : Survey) (name : String) (parameters : List String)
    (inner : Survey) : Survey :=
  { survey with
    functions := survey.functions ++
      [⟨name, parameters, inner.events, inner.functions⟩] }

end Survey

mutual

/-- Reads an expression. -/
def Expr.survey (order : AttemptOrder) : Expr → Survey → Survey
  | .ident name _, survey => survey.reads name
  | .literal _ _, survey => survey
  | .binary _ left right _, survey =>
      right.survey order (left.survey order survey)
  | .unary _ operand _, survey => operand.survey order survey
  | .call callee arguments _, survey =>
      surveyAll order arguments (callee.survey order survey)
  | .assign (.ident name _) value _, survey =>
      ((value.survey order survey).declare name).writes name
  | .assign _ _ _, survey => survey
  | .define name parameters body _, survey =>
      let declared := survey.declare name
      let inner := body.survey order (declared.inside name parameters)
      (declared.encloses name parameters inner).writes name
  | .block body, survey => body.survey order survey
  | .branch condition consequence alternative _, survey =>
      surveyOptional order alternative
        (consequence.survey order (condition.survey order survey))
  | .loop condition body _, survey =>
      (body.survey order (condition.survey order survey)).notes .repeats
  | .attempt body clauses _, survey =>
      let both := match order with
        | .bodyFirst => surveyClauses order clauses (body.survey order survey)
        | .clausesFirst =>
            body.survey order (surveyClauses order clauses survey)
      both.notes (.attempts clauses.length)
  | .perform _ payload _, survey => surveyOptional order payload survey

/-- Reads an expression that may be missing. -/
def surveyOptional (order : AttemptOrder) : Option Expr → Survey → Survey
  | some expression, survey => expression.survey order survey
  | none, survey => survey

/-- Reads a block. -/
def Block.survey (order : AttemptOrder) : Block → Survey → Survey
  | ⟨expressions, _⟩, survey => surveyAll order expressions survey

/-- Reads expressions one after the other. -/
def surveyAll (order : AttemptOrder) : List Expr → Survey → Survey
  | [], survey => survey
  | first :: others, survey =>
      surveyAll order others (first.survey order survey)

/-- Reads the clauses of an attempt; each of them is a function. -/
def surveyClauses (order : AttemptOrder) : List Clause → Survey → Survey
  | [], survey => survey
  | ⟨effect, parameter, body, _⟩ :: clauses, survey =>
      let inner := body.survey order
        (survey.inside (handlerName effect) [parameter])
      surveyClauses order clauses
        (survey.encloses (handlerName effect) [parameter] inner)

end

/-- The sketch of a program that is read in an order. -/
def Block.sketchIn (order : AttemptOrder) (program : Block) : Sketch :=
  let survey := program.survey order { scopes := [] }
  ⟨scriptName, [], survey.events, survey.functions⟩

/-- The sketch of a program. -/
def Block.sketch (program : Block) : Sketch :=
  program.sketchIn .clausesFirst

/-! ## Vocabularies -/

/-- What a program may use. -/
structure Vocabulary where
  /-- The names that it may read and write. -/
  names : String → Bool
  /-- Whether it may repeat anything. -/
  repetition : Bool

/-- Whether an event uses only what is allowed. -/
def Event.isWithin (vocabulary : Vocabulary) : Event → Bool
  | .reads name _ | .writes name _ => vocabulary.names name
  | .attempts _ => true
  | .repeats => vocabulary.repetition

mutual

/-- Whether an expression uses only what is allowed. -/
def Expr.isWithin (vocabulary : Vocabulary) : Expr → Bool
  | .ident name _ => vocabulary.names name
  | .literal _ _ => true
  | .binary _ left right _ => left.isWithin vocabulary &&
      right.isWithin vocabulary
  | .unary _ operand _ => operand.isWithin vocabulary
  | .call callee arguments _ => callee.isWithin vocabulary &&
      areWithin vocabulary arguments
  | .assign target value _ => target.isWithin vocabulary &&
      value.isWithin vocabulary
  | .define name _ body _ => vocabulary.names name && body.isWithin vocabulary
  | .block body => body.isWithin vocabulary
  | .branch condition consequence alternative _ =>
      condition.isWithin vocabulary && consequence.isWithin vocabulary &&
        isWithinOptional vocabulary alternative
  | .loop condition body _ =>
      vocabulary.repetition && condition.isWithin vocabulary &&
        body.isWithin vocabulary
  | .attempt body clauses _ => body.isWithin vocabulary &&
      areWithinClauses vocabulary clauses
  | .perform _ payload _ => isWithinOptional vocabulary payload

/-- Whether an expression is missing or uses only what is allowed. -/
def isWithinOptional (vocabulary : Vocabulary) : Option Expr → Bool
  | some expression => expression.isWithin vocabulary
  | none => true

/-- Whether a block uses only what is allowed. -/
def Block.isWithin (vocabulary : Vocabulary) : Block → Bool
  | ⟨expressions, _⟩ => areWithin vocabulary expressions

/-- Whether expressions use only what is allowed. -/
def areWithin (vocabulary : Vocabulary) : List Expr → Bool
  | [] => true
  | first :: others => first.isWithin vocabulary && areWithin vocabulary others

/-- Whether clauses use only what is allowed. -/
def areWithinClauses (vocabulary : Vocabulary) : List Clause → Bool
  | [] => true
  | ⟨_, _, body, _⟩ :: clauses => body.isWithin vocabulary &&
      areWithinClauses vocabulary clauses

end

/-- The events of the sketch and of all functions inside it use only what is
allowed. -/
inductive Sketch.Within (vocabulary : Vocabulary) : Sketch → Prop
  | intro {sketch : Sketch}
      (events : ∀ event ∈ sketch.events, event.isWithin vocabulary)
      (functions : ∀ inner ∈ sketch.functions, Within vocabulary inner) :
        Within vocabulary sketch

/-- What was read so far uses only what is allowed. -/
structure Survey.Within (vocabulary : Vocabulary) (survey : Survey) : Prop where
  events : ∀ event ∈ survey.events, event.isWithin vocabulary
  functions : ∀ inner ∈ survey.functions, inner.Within vocabulary

namespace Survey.Within

variable {vocabulary : Vocabulary} {survey inner : Survey} {name : String}

theorem notes
    (within : survey.Within vocabulary)
    {event : Event}
    (allowed : event.isWithin vocabulary) :
    (survey.notes event).Within vocabulary := by
  refine ⟨?_, within.functions⟩
  intro other member
  rcases List.mem_append.1 member with old | new
  · exact within.events other old
  · cases List.mem_singleton.1 new
    exact allowed

theorem declare (within : survey.Within vocabulary) :
    (survey.declare name).Within vocabulary := by
  unfold Survey.declare
  split
  · exact within
  · split
    · exact within
    · exact ⟨within.events, within.functions⟩

theorem encloses
    (within : survey.Within vocabulary)
    (innerWithin : inner.Within vocabulary)
    {parameters : List String} :
    (survey.encloses name parameters inner).Within vocabulary := by
  refine ⟨within.events, ?_⟩
  intro other member
  rcases List.mem_append.1 member with old | new
  · exact within.functions other old
  · cases List.mem_singleton.1 new
    exact .intro innerWithin.events innerWithin.functions

/-- A function begins with nothing. -/
theorem inside {parameters : List String} :
    (survey.inside name parameters).Within vocabulary :=
  ⟨by simp [Survey.inside], by simp [Survey.inside]⟩

end Survey.Within

mutual

/-- Reading an expression finds only what it uses. -/
theorem Expr.survey_within {vocabulary : Vocabulary}
    {survey : Survey}
    (expression : Expr)
    (allowed : expression.isWithin vocabulary)
    (within : survey.Within vocabulary) :
    (expression.survey .clausesFirst survey).Within vocabulary := by
  cases expression with
  | ident name position => exact within.notes allowed
  | literal value position => exact within
  | binary op left right position =>
      simp only [Expr.isWithin, Bool.and_eq_true] at allowed
      exact right.survey_within allowed.2 (left.survey_within allowed.1 within)
  | unary op operand position => exact operand.survey_within allowed within
  | call callee arguments position =>
      simp only [Expr.isWithin, Bool.and_eq_true] at allowed
      exact surveyAll_within arguments allowed.2
        (callee.survey_within allowed.1 within)
  | assign target value position =>
      simp only [Expr.isWithin, Bool.and_eq_true] at allowed
      cases target with
      | ident name place =>
          exact (value.survey_within allowed.2 within).declare.notes allowed.1
      | _ => exact within
  | define name parameters body position =>
      simp only [Expr.isWithin, Bool.and_eq_true] at allowed
      exact (within.declare.encloses
        (body.survey_within allowed.2 .inside)).notes allowed.1
  | block body => exact body.survey_within allowed within
  | branch condition consequence alternative position =>
      simp only [Expr.isWithin, Bool.and_eq_true] at allowed
      exact surveyOptional_within alternative allowed.2
        (consequence.survey_within allowed.1.2
        (condition.survey_within allowed.1.1 within))
  | loop condition body position =>
      simp only [Expr.isWithin, Bool.and_eq_true] at allowed
      exact (body.survey_within allowed.2
        (condition.survey_within allowed.1.2 within)).notes
        allowed.1.1
  | attempt body clauses position =>
      simp only [Expr.isWithin, Bool.and_eq_true] at allowed
      exact (body.survey_within allowed.1
        (surveyClauses_within clauses allowed.2 within)).notes rfl
  | perform effect payload position =>
      exact surveyOptional_within payload allowed within

theorem surveyOptional_within {vocabulary : Vocabulary}
    {survey : Survey}
    (expression : Option Expr)
    (allowed : isWithinOptional vocabulary expression)
    (within : survey.Within vocabulary) :
    (surveyOptional .clausesFirst expression survey).Within vocabulary := by
  cases expression with
  | some expression => exact expression.survey_within allowed within
  | none => exact within

theorem Block.survey_within {vocabulary : Vocabulary}
    {survey : Survey}
    (block : Block)
    (allowed : block.isWithin vocabulary)
    (within : survey.Within vocabulary) :
    (block.survey .clausesFirst survey).Within vocabulary := by
  obtain ⟨expressions, position⟩ := block
  exact surveyAll_within expressions allowed within

theorem surveyAll_within {vocabulary : Vocabulary}
    {survey : Survey}
    (expressions : List Expr)
    (allowed : areWithin vocabulary expressions)
    (within : survey.Within vocabulary) :
    (surveyAll .clausesFirst expressions survey).Within vocabulary := by
  cases expressions with
  | nil => exact within
  | cons first others =>
      simp only [areWithin, Bool.and_eq_true] at allowed
      exact surveyAll_within others allowed.2
        (first.survey_within allowed.1 within)

theorem surveyClauses_within {vocabulary : Vocabulary}
    {survey : Survey}
    (clauses : List Clause)
    (allowed : areWithinClauses vocabulary clauses)
    (within : survey.Within vocabulary) :
    (surveyClauses .clausesFirst clauses survey).Within vocabulary := by
  cases clauses with
  | nil => exact within
  | cons clause others =>
      obtain ⟨effect, parameter, body, position⟩ := clause
      simp only [areWithinClauses, Bool.and_eq_true] at allowed
      exact surveyClauses_within others allowed.2
        (within.encloses (body.survey_within allowed.1 .inside))

end

/-- The sketch of a program uses only what the program uses. -/
theorem Block.sketch_within {vocabulary : Vocabulary}
    {program : Block}
    (allowed : program.isWithin vocabulary) :
    program.sketch.Within vocabulary := by
  have nothing : Survey.Within vocabulary { scopes := [] } := ⟨by simp, by simp⟩
  have within := program.survey_within allowed nothing
  exact .intro within.events within.functions

/-! ## Variables of compiled functions -/

/-- What a function makes known about its variables. -/
structure Registry where
  /-- The names that have a slot, the newest one first. -/
  slots : List (String × UInt8)
  /-- Slots of the function around with the own slots that receive their
  boxes. -/
  captures : List (UInt8 × UInt8)

/-- The slot of a name; of two slots of one name the newer one counts. -/
def Registry.slot? (registry : Registry) (name : String) : Option UInt8 :=
  registry.slots.lookup name

/-- The variables of a compiled function. -/
def Template.registry (template : Template) : Registry :=
  ⟨template.debug.slotNames.reverse,
    template.capturesOuter.zip template.capturesInner⟩

/-- The variables of a function under construction. -/
def Draft.registry (draft : Draft) : Registry :=
  ⟨draft.slots, draft.captures⟩

@[simp]
theorem Draft.registry_finish (draft : Draft) :
    draft.finish.registry = draft.registry := by
  have captures : (draft.captures.map (·.1)).zip (draft.captures.map (·.2)) =
      draft.captures := by
    rw [List.zip_map', List.map_id']
  simp only [Template.registry, Draft.registry, Draft.finish,
    Draft.slots, captures]

/-- The slot of the first function of a chain, followed outward through so many
captures, is the slot of the name in a function that did not capture it. -/
def StandsFor (name : String) : List Registry → Nat → UInt8 → Prop
  | [], _, _ => False
  | own :: _, 0, slot => own.slot? name = some slot ∧
      ∀ capture ∈ own.captures, capture.2 ≠ slot
  | own :: beyond, level + 1, slot =>
      ∃ capture ∈ own.captures, capture.2 = slot ∧
        StandsFor name beyond level capture.1

/-- The operation is what becomes of the event in the first function of a chain,
which knows the given names. -/
def Event.Becomes
    (chain : List Registry) (names : List String) (opcode : Opcode)
    (byte : UInt8) : Event → Prop
  | .reads name (some level) =>
      (opcode = .loadLocal ∨ opcode = .loadHeap) ∧
      StandsFor name chain level byte
  | .reads name none => opcode = .loadGlobal ∧ names[byte.toNat]? = some name
  | .writes name (some level) =>
      (opcode = .storeLocal ∨ opcode = .storeHeap) ∧
      StandsFor name chain level byte
  | .writes name none => opcode = .storeGlobal ∧ names[byte.toNat]? = some name
  | .attempts clauses => opcode = .popHandlers ∧ byte.toNat = clauses
  | .repeats => opcode = .loop

/-- Whether events become the operation. -/
def Opcode.marksEvent : Opcode → Bool
  | .loadLocal | .loadHeap | .loadGlobal | .storeLocal | .storeHeap
  | .storeGlobal => true
  | .popHandlers | .loop => true
  | _ => false

/-- The functions among constants, in order. -/
def functionsAmong (constants : List Value) : List Template :=
  constants.filterMap fun
    | .function _ inner => some inner
    | _ => none

namespace Template

/-- The functions directly inside a template, in order. -/
def functions (template : Template) : List Template :=
  functionsAmong template.constants

/-- The instructions that events became, in order. -/
def eventInstructions (template : Template) : List Instruction :=
  (Instruction.walk template.code).instructions.filter (·.opcode.marksEvent)

end Template

/-- The relation holds between the sketch and the template, and between the
functions inside them one by one. It may depend on the variables of the
functions around, the innermost one first. -/
inductive Sketch.Matches (relation : List Registry → Sketch → Template → Prop) :
    List Registry → Sketch → Template → Prop
  | intro {enclosing : List Registry} {sketch : Sketch} {template : Template}
      (here : relation enclosing sketch template)
      (count : sketch.functions.length = template.functions.length)
      (inside : ∀ inner function,
        (inner, function) ∈ sketch.functions.zip template.functions →
        Matches relation (template.registry :: enclosing) inner function) :
      Matches relation enclosing sketch template

namespace Sketch.Matches

variable {relation weaker : List Registry → Sketch → Template → Prop}
    {enclosing : List Registry} {sketch : Sketch} {template : Template}

theorem imp
    (matches_ : sketch.Matches relation enclosing template)
    (implies : ∀ enclosing sketch template, relation enclosing sketch template →
      weaker enclosing sketch template) :
    sketch.Matches weaker enclosing template := by
  induction matches_ with
  | intro here count _ inner => exact .intro (implies _ _ _ here) count inner

/-- The functions use only what their sketches use. -/
theorem within {vocabulary : Vocabulary}
    (matches_ : sketch.Matches relation enclosing template)
    (within : sketch.Within vocabulary) :
    sketch.Matches
        (fun enclosing sketch template => relation enclosing sketch template ∧
      ∀ event ∈ sketch.events, event.isWithin vocabulary) enclosing
        template := by
  induction matches_ with
  | intro here count _ inner =>
      cases within with
      | intro events functions =>
          refine .intro ⟨here, events⟩ count fun function template paired => ?_
          exact inner function template paired
            (functions function (List.of_mem_zip paired).1)

/-- Inside other functions the relation may be weakened to what holds there. -/
theorem imp_inside
    (matches_ : sketch.Matches relation enclosing template)
    (implies : ∀ enclosing sketch template, enclosing ≠ [] →
      relation enclosing sketch template → weaker enclosing sketch template)
    (inside : enclosing ≠ []) :
    sketch.Matches weaker enclosing template := by
  induction matches_ with
  | intro here count _ inner =>
      refine .intro (implies _ _ _ inside here) count
        fun function template paired => ?_
      exact inner function template paired (List.cons_ne_nil _ _)

theorem here (matches_ : sketch.Matches relation enclosing template) :
    relation enclosing sketch template := by
  cases matches_ with
  | intro here _ _ => exact here

theorem only {inner : Sketch} {function : Template}
    (matches_ : sketch.Matches relation enclosing template)
    (sketched : sketch.functions = [inner])
    (compiled : template.functions = [function]) :
    inner.Matches relation (template.registry :: enclosing) function := by
  cases matches_ with
  | intro _ _ inside =>
      exact inside inner function (by simp [sketched, compiled])

/-- Every function of the template is related to some sketch. -/
theorem of_contains {function : Template}
    (matches_ : sketch.Matches relation enclosing template)
    (contains : template.Contains function) :
    ∃ around inner, Matches relation around inner function := by
  induction contains with
  | itself => exact ⟨enclosing, sketch, matches_⟩
  | @constant outer inner identity _ member within =>
      obtain ⟨around, outerSketch, outerMatches⟩ := within
      cases outerMatches with
      | intro _ count inside =>
          have listed : inner ∈ outer.functions :=
            List.mem_filterMap.2 ⟨.function identity inner, member, rfl⟩
          obtain ⟨index, present, rfl⟩ := List.mem_iff_getElem.1 listed
          have both :
              index < (outerSketch.functions.zip outer.functions).length := by
            rw [List.length_zip, count, Nat.min_self]
            exact present
          have paired : (outerSketch.functions[index], outer.functions[index]) ∈
              outerSketch.functions.zip outer.functions := by
            rw [← @List.getElem_zip _ _ _ _ index both]
            exact List.getElem_mem both
          exact ⟨_, _, inside _ _ paired⟩

end Sketch.Matches

end EffectScript
