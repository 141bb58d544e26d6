import EffectScript.Proofs.Capture
import EffectScript.Proofs.Layout
import EffectScript.Proofs.Lines
import EffectScript.Proofs.Wording

/-!
# Listings have one line for each instruction

Cut at its line feeds, the listing of a compiled program is a table: for each
function a header and then one line for each instruction, which begins with the
offset and has the mnemonic in the third column. What the columns show comes
from the code, from names and from constants. Names of a program hold no line
feeds, but texts can: they are shown as they are, and a line feed in a text
tears the line of the instruction that loads it. Except for such texts, every
listing is a table.
-/

namespace EffectScript

/-! ## Lines of a text -/

namespace Text

/-- The pieces of a text between its line feeds. -/
def pieces (text : String) : List String :=
  (List.splitOn '\n' text.toList).map String.ofList

/-- The text holds no line feed. -/
def IsSingleLine (text : String) : Prop :=
  '\n' ∉ text.toList

instance (text : String) : Decidable (IsSingleLine text) :=
  inferInstanceAs (Decidable (¬ _))

@[simp]
theorem isSingleLine_append {first second : String} :
    IsSingleLine (first ++ second) ↔ IsSingleLine first ∧
    IsSingleLine second := by
  simp [IsSingleLine, String.toList_append, not_or]

theorem IsSingleLine.append {first second : String}
    (before : IsSingleLine first)
    (behind : IsSingleLine second) :
    IsSingleLine (first ++ second) :=
  isSingleLine_append.2 ⟨before, behind⟩

theorem isSingleLine_ofList {characters : List Char} :
    IsSingleLine (String.ofList characters) ↔ '\n' ∉ characters := by
  rw [IsSingleLine, String.toList_ofList]

/-- A text behind another one, with a line feed between them. -/
theorem pieces_append (first second : String) :
    pieces (first ++ "\n" ++ second) = pieces first ++ pieces second := by
  have linefeed : ("\n" : String).toList = ['\n'] := rfl
  rw [pieces, String.toList_append, String.toList_append, linefeed,
    List.append_assoc, List.singleton_append, List.splitOn_append_cons_self,
    List.map_append]
  rfl

/-- A text is its only piece if it holds no line feed. -/
theorem pieces_eq_singleton {text : String} (single : IsSingleLine text) :
    pieces text = [text] := by
  rw [pieces, List.splitOn_eq_singleton single, List.map_singleton,
    String.ofList_toList]

theorem length_pieces (text : String) : 1 ≤ (pieces text).length := by
  rw [pieces, List.length_map]
  exact List.length_pos_of_ne_nil (List.splitOn_ne_nil _ _)

theorem isSingleLine_of_length_pieces {text : String}
    (one : (pieces text).length = 1) :
    IsSingleLine text := by
  intro member
  obtain ⟨before, after, parts⟩ := List.append_of_mem member
  have two : pieces text = pieces (String.ofList before) ++
      pieces (String.ofList after) := by
    simp only [pieces, parts, String.toList_ofList,
      List.splitOn_append_cons_self, List.map_append]
  have first := length_pieces (String.ofList before)
  have second := length_pieces (String.ofList after)
  rw [two, List.length_append] at one
  omega

/-- Lines have at least as many pieces as there are lines. -/
theorem length_le_length_flatMap_pieces (lines : List String) :
    lines.length ≤ (lines.flatMap pieces).length := by
  induction lines with
  | nil => exact Nat.le_refl _
  | cons line lines inner =>
      have one := length_pieces line
      simp only [List.flatMap_cons, List.length_append, List.length_cons]
      omega

/-- Where lines have no more pieces than there are lines, none of them holds a
line feed. -/
theorem isSingleLine_of_length_flatMap_pieces
    {lines : List String}
    (same : (lines.flatMap pieces).length ≤ lines.length) :
    ∀ line ∈ lines, IsSingleLine line := by
  induction lines with
  | nil => simp
  | cons line lines inner =>
      have one := length_pieces line
      have others := length_le_length_flatMap_pieces lines
      simp only [List.flatMap_cons, List.length_append, List.length_cons]
        at same
      exact List.forall_mem_cons.2
        ⟨isSingleLine_of_length_pieces (by omega), inner (by omega)⟩

/-- The lines of a text that has a line feed behind each of them. -/
theorem pieces_join (lines : List String) :
    pieces (String.join (lines.map (· ++ "\n"))) =
      lines.flatMap pieces ++ [""] := by
  induction lines with
  | nil => rfl
  | cons line lines inner =>
      rw [List.map_cons, String.join_cons, pieces_append, inner,
        List.flatMap_cons, List.append_assoc]

/-- White space is removed at the end only. -/
theorem trimEnd_append {front rest : String} {last : Char}
    (ends : front.toList.getLast? = some last)
    (solid : isWhiteSpace last = false) :
    trimEnd (front ++ rest) = front ++ trimEnd rest := by
  obtain ⟨init, front_eq⟩ := List.getLast?_eq_some_iff.1 ends
  have stops : front.toList.reverse.dropWhile isWhiteSpace =
      front.toList.reverse := by
    simp [front_eq, solid]
  unfold trimEnd
  rw [String.toList_append, List.reverse_append, List.dropWhile_append, stops]
  split
  next blank => simp [List.isEmpty_iff.1 blank]
  next => simp [String.ofList_append]

theorem trimEnd_eq {text : String} {last : Char}
    (ends : text.toList.getLast? = some last)
    (solid : isWhiteSpace last = false) :
    trimEnd text = text := by
  have nothing : trimEnd "" = "" := rfl
  have trimmed : trimEnd (text ++ "") = text ++ trimEnd "" :=
    trimEnd_append ends solid
  rwa [nothing, String.append_empty] at trimmed

theorem prefix_trimEnd (text : String) :
    (trimEnd text).toList <+: text.toList := by
  rw [trimEnd, String.toList_ofList]
  have suffix := List.dropWhile_suffix (l := text.toList.reverse) isWhiteSpace
  rw [← List.reverse_prefix, List.reverse_reverse] at suffix
  exact suffix

/-- A text that begins with a blank is trimmed to nothing or to one that begins
with a blank. -/
theorem trimEnd_of_blank {text : String}
    (blank : text.toList.head? = some ' ') :
    trimEnd text = "" ∨ ∃ more, trimEnd text = " " ++ more := by
  have before := prefix_trimEnd text
  obtain ⟨rest, text_eq⟩ := List.head?_eq_some_iff.1 blank
  rw [text_eq, List.prefix_cons_iff] at before
  rcases before with nothing | ⟨more, some, _⟩
  · exact .inl (String.toList_eq_nil_iff.1 nothing)
  · refine .inr ⟨String.ofList more, String.toList_inj.1 ?_⟩
    rw [some, String.toList_append, String.toList_ofList (l := more)]
    rfl

theorem IsSingleLine.trimEnd {text : String} (single : IsSingleLine text) :
    IsSingleLine (trimEnd text) :=
  fun member => single ((prefix_trimEnd text).subset member)

/-- The digits of a number. -/
theorem isSingleLine_number (number : Nat) :
    IsSingleLine (toString number) := by
  show '\n' ∉ number.repr.toList
  rw [Nat.toList_repr]
  intro member
  exact absurd (Nat.isDigit_of_mem_toDigits (by decide) (by decide) member)
    (by decide)

theorem isSingleLine_integer (number : Int) :
    IsSingleLine (toString number) := by
  cases number with
  | ofNat number => exact isSingleLine_number number
  | negSucc number =>
      exact .append (by decide) (isSingleLine_number (number + 1))

theorem isSingleLine_replicate {character : Char}
    (other : character ≠ '\n') (count : Nat) :
    IsSingleLine (String.ofList (List.replicate count character)) :=
  isSingleLine_ofList.2 fun member =>
    other (List.eq_of_mem_replicate member).symm

theorem isSingleLine_zeroPadded (width number : Nat) :
    IsSingleLine (zeroPadded width number) :=
  (isSingleLine_replicate (by decide) _).append (isSingleLine_number number)

theorem IsSingleLine.padLeft {text : String}
    (single : IsSingleLine text)
    (width : Nat) :
    IsSingleLine (padLeft width text) :=
  (isSingleLine_replicate (by decide) _).append single

/-- Words hold no line feeds. -/
theorem isSingleLine_identifier {name : String} (word : isIdentifier name) :
    IsSingleLine name := by
  unfold isIdentifier at word
  intro member
  split at word
  next => cases word
  next first rest characters =>
    rw [Bool.and_eq_true] at word
    rw [characters] at member
    rcases List.mem_cons.1 member with rfl | later
    · exact absurd word.1 (by decide)
    · exact absurd (List.all_eq_true.1 word.2 _ later) (by decide)

end Text

theorem Opcode.isSingleLine_mnemonic (opcode : Opcode) :
    Text.IsSingleLine opcode.mnemonic := by
  cases opcode <;> decide

/-! ## Tables -/

/-- The line shows the instruction: the offset with at least four digits, in the
next column the line of the source or a bar, and then the mnemonic, behind which
the line ends or goes on with a blank. -/
def Instruction.ShownBy
    (template : Template)
    (instruction : Instruction)
    (line : String) : Prop :=
  ∃ sourceLine rest,
    (sourceLine = "|" ∨
      sourceLine = toString (template.debug.lineAt instruction.offset)) ∧
    (rest = "" ∨ ∃ more, rest = " " ++ more) ∧
    line = Text.zeroPadded 4 instruction.offset ++ " " ++
      Text.padLeft 4 sourceLine ++ " " ++
      instruction.opcode.mnemonic ++ rest

mutual

/-- The lines show the function, as a header and one line for each instruction,
and then the functions in its pool. -/
inductive Template.ListedBy : Template → List String → Prop
  | intro {template : Template} {own nested : List String}
      (shown : List.Forall₂ (Instruction.ShownBy template)
        template.instructions own)
      (functions : AllListedBy template.functions nested) :
      Template.ListedBy template
        (("== " ++ template.name ++ " ==") :: own ++ nested)

/-- The lines show the functions one after the other, each behind an empty
line. -/
inductive AllListedBy : List Template → List String → Prop
  | nil : AllListedBy [] []
  | cons {template : Template} {others : List Template}
      {lines more : List String}
      (first : template.ListedBy lines) (later : AllListedBy others more) :
      AllListedBy (template :: others) ("" :: lines ++ more)

end

/-- The text that the instruction loads. -/
def Instruction.loadedText? (template : Template) (instruction : Instruction) :
    Option String :=
  if instruction.opcode = .loadConst then
    (template.constant? instruction.byte).bind Value.str?
  else
    none

/-- The texts that the function loads, in the order of its code. -/
def Template.loadedTexts (template : Template) : List String :=
  template.instructions.filterMap (Instruction.loadedText? template)

mutual

/-- Two lists of lines that show the same function are equally long. -/
theorem Template.ListedBy.length_eq :
    {template : Template} → {lines others : List String} →
      template.ListedBy lines → template.ListedBy others →
      lines.length = others.length
  | _, _, _, .intro shown functions, .intro shownAgain functionsAgain => by
      have own := shown.length_eq.symm.trans shownAgain.length_eq
      have nested := functions.length_eq functionsAgain
      simp only [List.cons_append, List.length_cons, List.length_append,
        own, nested]

theorem AllListedBy.length_eq :
    {templates : List Template} → {lines others : List String} →
      AllListedBy templates lines → AllListedBy templates others →
      lines.length = others.length
  | _, _, _, .nil, .nil => rfl
  | _, _, _, .cons first later, .cons firstAgain laterAgain => by
      have own := first.length_eq firstAgain
      have others := later.length_eq laterAgain
      simp only [List.cons_append, List.length_cons, List.length_append,
        own, others]

end

/-! ## Listings are tables, up to line feeds -/

/-- What a function of the pool contains is in the function itself. -/
theorem Template.Contains.of_constant
    {template outer inner : Template} {identity : Nat}
    (member : .function identity outer ∈ template.constants)
    (contains : outer.Contains inner) :
    template.Contains inner := by
  induction contains with
  | itself => exact .constant (.itself template) member
  | constant _ within inside => exact .constant inside within

/-- A function inside another one is directly inside it or deeper. -/
theorem Template.Contains.eq_or_exists
    {template inner : Template}
    (contains : template.Contains inner) :
    inner = template ∨ ∃ outer ∈ template.functions, outer.Contains inner := by
  induction contains with
  | itself => exact .inl rfl
  | constant _ member within =>
      rcases within with rfl | ⟨outer, direct, inside⟩
      · exact .inr ⟨_, List.mem_filterMap.2 ⟨_, member, rfl⟩, .itself _⟩
      · exact .inr ⟨outer, direct, .constant inside member⟩

namespace Listing

/-- A line without its end: the offset, the line of the source and the
mnemonic. -/
def columns
    (template : Template) (previous : Option UInt32)
    (instruction : Instruction) : String :=
  let line := template.debug.lineAt instruction.offset
  Text.zeroPadded 4 instruction.offset ++ " " ++
    Text.padLeft 4 (if previous = some line then "|" else toString line) ++
      " " ++
    instruction.opcode.mnemonic

/-- The last column: blanks and the operands. -/
def lastColumn
    (store : Store) (template : Template)
    (instruction : Instruction) : String :=
  String.ofList
    (List.replicate (16 - instruction.opcode.mnemonic.length) ' ') ++ " " ++
    operands store template instruction

theorem instructionLine_eq
    (store : Store) (template : Template) (previous : Option UInt32)
    (instruction : Instruction) :
    instructionLine store template previous instruction =
      columns template previous instruction ++
        Text.trimEnd (lastColumn store template instruction) := by
  have mnemonicEnds :
      ∃ last, instruction.opcode.mnemonic.toList.getLast? = some last ∧
      Text.isWhiteSpace last = false := by
    cases instruction.opcode <;> exact ⟨_, rfl, by decide⟩
  obtain ⟨last, ends, solid⟩ := mnemonicEnds
  have columnsEnd : (columns template previous instruction).toList.getLast? =
      some last := by
    rw [columns, String.toList_append, List.getLast?_append, ends]
    rfl
  rw [← Text.trimEnd_append columnsEnd solid]
  simp only [instructionLine, columns, lastColumn, Text.padRight,
    String.append_assoc]

theorem instructionLine_shown
    (store : Store) (template : Template) (previous : Option UInt32)
    (instruction : Instruction) :
    instruction.ShownBy template
      (instructionLine store template previous instruction) := by
  refine ⟨_, _, ?_, ?_, instructionLine_eq store template previous instruction⟩
  · split
    · exact .inl rfl
    · exact .inr rfl
  · refine Text.trimEnd_of_blank ?_
    rw [lastColumn, String.append_assoc, String.toList_append,
      String.toList_append, String.toList_ofList]
    cases 16 - instruction.opcode.mnemonic.length <;> rfl

theorem instructionLines_shown
    (store : Store) (template : Template) (previous : Option UInt32)
    (instructions : List Instruction) :
    List.Forall₂ (Instruction.ShownBy template) instructions
      (instructionLines store template previous instructions) := by
  induction instructions generalizing previous with
  | nil => exact .nil
  | cons instruction rest inner =>
      exact .cons (instructionLine_shown store template previous instruction)
        (inner _)

theorem functionLines_eq (store : Store) {template : Template}
    (faultless : (Instruction.walk template.code).fault = none) :
    functionLines store template = ("== " ++ template.name ++ " ==") ::
      instructionLines store template none template.instructions := by
  rw [functionLines, faultless, List.append_nil]
  rfl

mutual

/-- The lines of a listing show its functions, where their code can be
decoded. -/
theorem listedBy_templateLines (store : Store) : (template : Template) →
    (∀ inner, template.Contains inner →
      (Instruction.walk inner.code).fault = none) →
      template.ListedBy (templateLines store template)
  | ⟨name, arity, locals, code, constants, names, debug, outer, inner, heap⟩,
        decodes => by
      let template : Template :=
        ⟨name, arity, locals, code, constants, names, debug, outer, inner, heap⟩
      have shown := instructionLines_shown store template none
        template.instructions
      have nested := allListedBy_nestedLines store constants
          fun identity inside member inner contains =>
        decodes inner (.of_constant member contains)
      rw [templateLines,
        functionLines_eq store (decodes template (.itself template))]
      exact .intro shown nested

theorem allListedBy_nestedLines (store : Store) : (constants : List Value) →
    (∀ identity template, .function identity template ∈ constants →
      ∀ inner, template.Contains inner →
        (Instruction.walk inner.code).fault = none) →
      AllListedBy (functionsAmong constants) (nestedLines store constants)
  | [], _ => .nil
  | constant :: constants, decodes => by
      have others := allListedBy_nestedLines store constants
          fun identity template member =>
        decodes identity template (List.mem_cons_of_mem _ member)
      cases constant with
      | function identity template =>
          exact .cons
            (listedBy_templateLines store template
              (decodes identity template List.mem_cons_self))
            others
      | _ => exact others

end

/-! ## Line feeds in listings -/

mutual

/-- All lines of a listing have a property that the lines of its functions and
empty lines have. -/
theorem forall_mem_templateLines {property : String → Prop} (store : Store)
    (empty : property "") :
    (template : Template) →
    (∀ inner, template.Contains inner → ∀ line ∈ functionLines store inner,
      property line) →
      ∀ line ∈ templateLines store template, property line
  | ⟨name, arity, locals, code, constants, names, debug, outer, inner, heap⟩,
        each => by
      rw [templateLines]
      refine List.forall_mem_append.2 ⟨each _ (.itself _), ?_⟩
      exact forall_mem_nestedLines store empty constants
          fun identity inside member inner contains =>
        each inner (.of_constant member contains)

theorem forall_mem_nestedLines {property : String → Prop} (store : Store)
    (empty : property "") :
    (constants : List Value) →
    (∀ identity template, .function identity template ∈ constants →
      ∀ inner, template.Contains inner → ∀ line ∈ functionLines store inner,
        property line) →
      ∀ line ∈ nestedLines store constants, property line
  | [], _ => by simp [nestedLines]
  | constant :: constants, each => by
      have others := forall_mem_nestedLines store empty constants
          fun identity template member =>
        each identity template (List.mem_cons_of_mem _ member)
      rw [nestedLines]
      refine List.forall_mem_append.2 ⟨?_, others⟩
      cases constant with
      | function identity template =>
          rw [constantLines]
          exact List.forall_mem_cons.2
            ⟨empty, forall_mem_templateLines store empty template
            (each identity template List.mem_cons_self)⟩
      | _ => simp [constantLines]

end

theorem templateLines_subset
    (store : Store)
    {template inner : Template}
    (contains : template.Contains inner) :
    templateLines store inner ⊆ templateLines store template := by
  induction contains with
  | itself => exact List.Subset.refl _
  | @constant outer inner identity _ member within =>
      refine List.Subset.trans ?_ within
      have inPool : ∀ {constants : List Value},
          .function identity inner ∈ constants →
          templateLines store inner ⊆ nestedLines store constants := by
        intro constants member
        induction constants with
        | nil => cases member
        | cons constant constants later =>
            rw [nestedLines]
            rcases List.mem_cons.1 member with rfl | further
            · rw [constantLines]
              exact List.Subset.trans (List.subset_cons_self _ _)
                (List.subset_append_left _ _)
            · exact List.Subset.trans (later further)
                (List.subset_append_right _ _)
      obtain ⟨name, arity, locals, code, constants, names, debug, capturesOuter,
          capturesInner, heap⟩ := outer
      rw [templateLines]
      exact List.Subset.trans (inPool member) (List.subset_append_right _ _)

theorem functionLines_subset (store : Store) (template : Template) :
    functionLines store template ⊆ templateLines store template := by
  cases template
  rw [templateLines]
  exact List.subset_append_left _ _

section Operands

variable {template : Template} {instruction : Instruction} (store : Store)

theorem isSingleLine_nameOperand
    (names : ∀ name ∈ template.names, Text.IsSingleLine name)
    (index : UInt8) :
    Text.IsSingleLine (nameOperand template index) := by
  have number := Text.isSingleLine_number index.toNat
  unfold nameOperand
  split
  next found =>
    have name := names _ (List.mem_of_getElem? found)
    exact ((number.append (by decide)).append name).append (by decide)
  next => exact number.append (by decide)

theorem isSingleLine_slotOperand
    (slots : ∀ entry ∈ template.debug.slotNames, Text.IsSingleLine entry.1)
    (slot : UInt8) :
    Text.IsSingleLine (slotOperand template slot) := by
  have number := Text.isSingleLine_number slot.toNat
  unfold slotOperand
  split
  next found =>
    obtain ⟨entry, held, rfl⟩ := Option.map_eq_some_iff.1 found
    have name := slots entry (List.mem_of_find?_eq_some held)
    exact ((number.append (by decide)).append name).append (by decide)
  next => exact number

theorem isSingleLine_jumpOperand (offset destination : Nat) :
    Text.IsSingleLine (jumpOperand offset destination) :=
  ((Text.isSingleLine_number offset).append (by decide)).append
    (Text.isSingleLine_number destination)

/-- A constant is shown between quotation marks, as it is displayed. -/
theorem isSingleLine_constantOperand_iff {index : UInt8}
    {value : Value}
    (found : template.constant? index = some value) :
    Text.IsSingleLine (constantOperand store template index) ↔
      Text.IsSingleLine (value.display store) := by
  have before : Text.IsSingleLine (toString index ++ " '") :=
    (Text.isSingleLine_number index.toNat).append (by decide)
  have mark : Text.IsSingleLine "'" := by decide
  rw [constantOperand, found, Text.isSingleLine_append,
    Text.isSingleLine_append]
  exact ⟨fun single => single.1.2, fun single => ⟨⟨before, single⟩, mark⟩⟩

/-- What an instruction shows is in one line, unless it loads a text that is
not. -/
theorem isSingleLine_operands
    (named : template.Named Text.IsSingleLine)
    (loads : ∀ text ∈ template.loadedTexts, Text.IsSingleLine text)
    (member : instruction ∈ template.instructions)
    (refers : instruction.Refers template) :
    Text.IsSingleLine (operands store template instruction) := by
  cases named with
  | intro _ names slots comments functions =>
  unfold Instruction.Refers at refers
  unfold operands
  cases operation : instruction.opcode with
  | loadConst =>
      rw [operation] at refers
      obtain ⟨value, found, plain⟩ := refers
      refine (isSingleLine_constantOperand_iff store found).2 ?_
      cases value with
      | int number => exact Text.isSingleLine_integer number.toInt
      | str text =>
          refine loads text (List.mem_filterMap.2 ⟨instruction, member, ?_⟩)
          rw [Instruction.loadedText?, if_pos operation,
            show template.constant? _ = _ from found]
          rfl
      | _ => simp [Value.int?, Value.str?] at plain
  | makeClosure =>
      rw [operation] at refers
      obtain ⟨identity, inner, found⟩ := refers
      refine (isSingleLine_constantOperand_iff store found).2 ?_
      cases functions identity inner (List.mem_of_getElem? found) with
      | intro name _ _ _ _ =>
          exact (Text.IsSingleLine.append (by decide) name).append (by decide)
  | loadGlobal | storeGlobal | perform => exact isSingleLine_nameOperand names _
  | loadLocal | storeLocal | loadHeap | storeHeap =>
      exact isSingleLine_slotOperand slots _
  | call | popHandlers => exact Text.isSingleLine_number _
  | jump | jumpIfFalse | loop => exact isSingleLine_jumpOperand _ _
  | setHandler =>
      exact ((isSingleLine_nameOperand names _).append (by decide)).append
        (isSingleLine_jumpOperand _ _)
  | comment =>
      dsimp only
      split
      next found =>
        obtain ⟨entry, held, rfl⟩ := Dictionary.mem_of_find? found
        exact .append (by decide) (comments entry held)
      next => decide
  | _ => exact (by decide : Text.IsSingleLine "")

theorem isSingleLine_columns (previous : Option UInt32) :
    Text.IsSingleLine (columns template previous instruction) := by
  have line : Text.IsSingleLine
      (if previous = some (template.debug.lineAt instruction.offset) then "|"
      else toString (template.debug.lineAt instruction.offset)) := by
    split
    · decide
    · exact Text.isSingleLine_number _
  have offset := Text.isSingleLine_zeroPadded 4 instruction.offset
  have blank : Text.IsSingleLine " " := by decide
  exact (((offset.append blank).append (line.padLeft 4)).append blank).append
    instruction.opcode.isSingleLine_mnemonic

theorem isSingleLine_lastColumn_iff :
    Text.IsSingleLine (lastColumn store template instruction) ↔
      Text.IsSingleLine (operands store template instruction) := by
  rw [lastColumn, Text.isSingleLine_append, Text.isSingleLine_append]
  exact and_iff_right ⟨Text.isSingleLine_replicate (by decide) _, by decide⟩

theorem isSingleLine_instructionLine
    (previous : Option UInt32)
    (single : Text.IsSingleLine (operands store template instruction)) :
    Text.IsSingleLine
      (instructionLine store template previous instruction) := by
  rw [instructionLine_eq]
  exact (isSingleLine_columns previous).append
    ((isSingleLine_lastColumn_iff store).2 single).trimEnd

/-- The line of an instruction that loads a text ends with a quotation mark, so
that nothing of the text is lost. -/
theorem isSingleLine_of_instructionLine
    {previous : Option UInt32} {text : String}
    (loaded : instruction.loadedText? template = some text)
    (single : Text.IsSingleLine
      (instructionLine store template previous instruction)) :
    Text.IsSingleLine text := by
  obtain ⟨loads, found⟩ : instruction.opcode = .loadConst ∧
      template.constant? instruction.byte = some (.str text) := by
    unfold Instruction.loadedText? at loaded
    split at loaded
    next loads =>
      obtain ⟨value, held, isText⟩ := Option.bind_eq_some_iff.1 loaded
      cases value <;> cases isText
      exact ⟨loads, held⟩
    next => cases loaded
  have shown : operands store template instruction =
      constantOperand store template instruction.byte := by rw [operands, loads]
  have marked : (lastColumn store template instruction).toList.getLast? =
      some '\'' := by
    rw [lastColumn, shown, constantOperand, found, String.toList_append,
      List.getLast?_append, String.toList_append, List.getLast?_append]
    rfl
  rw [instructionLine_eq, Text.trimEnd_eq marked (by decide),
    Text.isSingleLine_append, isSingleLine_lastColumn_iff, shown] at single
  exact (isSingleLine_constantOperand_iff store found).1 single.2

/-- Every instruction has its line in the listing of its function. -/
theorem exists_instructionLine_mem
    (template : Template)
    {instructions : List Instruction}
    (member : instruction ∈ instructions)
    (previous : Option UInt32) :
    ∃ before, instructionLine store template before instruction ∈
      instructionLines store template previous instructions := by
  induction instructions generalizing previous with
  | nil => cases member
  | cons first rest inner =>
      rcases List.mem_cons.1 member with rfl | later
      · exact ⟨previous, List.mem_cons_self⟩
      · obtain ⟨before, among⟩ :=
          inner later (some (template.debug.lineAt first.offset))
        exact ⟨before, List.mem_cons_of_mem _ among⟩

theorem forall_mem_instructionLines
    {property : String → Prop} {instructions : List Instruction}
    (each : ∀ instruction ∈ instructions, ∀ previous,
      property (instructionLine store template previous instruction))
    (previous : Option UInt32) :
    ∀ line ∈ instructionLines store template previous instructions,
      property line := by
  induction instructions generalizing previous with
  | nil => simp [instructionLines]
  | cons first rest inner =>
      rw [instructionLines]
      exact List.forall_mem_cons.2 ⟨each first List.mem_cons_self previous,
        inner (fun instruction member =>
          each instruction (List.mem_cons_of_mem _ member)) _⟩

/-- The lines of a well laid out function with allowed names are lines, unless
it loads a text that is not. -/
theorem isSingleLine_functionLines
    (named : template.Named Text.IsSingleLine)
    (laid : template.WellLaid)
    (loads : ∀ text ∈ template.loadedTexts, Text.IsSingleLine text) :
    ∀ line ∈ functionLines store template, Text.IsSingleLine line := by
  rw [functionLines_eq store laid.faultless]
  refine List.forall_mem_cons.2 ⟨?_, ?_⟩
  · cases named with
    | intro name _ _ _ _ =>
        exact (Text.IsSingleLine.append (by decide) name).append (by decide)
  · exact forall_mem_instructionLines store (fun instruction member previous =>
      isSingleLine_instructionLine store previous
        (isSingleLine_operands store named loads member
          (laid.operands instruction member))) none

end Operands

section Functions

variable {script : Template} (store : Store)

/-- A listing is a table if its lines stay whole when it is cut at its line
feeds. -/
theorem table_iff_isSingleLine
    (decodes : ∀ template, script.Contains template →
      (Instruction.walk template.code).fault = none) :
    (∃ lines, script.ListedBy lines ∧ Text.pieces (script.listing store) =
        lines ++ [""]) ↔
      ∀ line ∈ templateLines store script, Text.IsSingleLine line := by
  have listed := listedBy_templateLines store script decodes
  have cut : Text.pieces (script.listing store) =
      (templateLines store script).flatMap Text.pieces ++ [""] :=
        Text.pieces_join _
  constructor
  · -- Every table of the script has as many lines, so no line is in more than
    -- one piece.
    rintro ⟨lines, shown, same⟩
    refine Text.isSingleLine_of_length_flatMap_pieces ?_
    rw [List.append_cancel_right (cut.symm.trans same), shown.length_eq listed]
  · intro single
    have whole : (templateLines store script).flatMap Text.pieces =
        templateLines store script := by
      rw [List.flatMap_congr fun line member => Text.pieces_eq_singleton
        (single line member),
        List.flatMap_singleton']
    exact ⟨_, listed, cut.trans (by rw [whole])⟩

/-- The texts that are loaded decide whether all lines are lines. -/
theorem isSingleLine_templateLines_iff
    (named : script.Named Text.IsSingleLine)
    (laid : ∀ template, script.Contains template → template.WellLaid) :
    (∀ line ∈ templateLines store script, Text.IsSingleLine line) ↔
      ∀ template, script.Contains template →
        ∀ text ∈ template.loadedTexts, Text.IsSingleLine text := by
  constructor
  · intro single template contains text among
    obtain ⟨instruction, member, loaded⟩ := List.mem_filterMap.1 among
    obtain ⟨before, inLines⟩ :=
      exists_instructionLine_mem store template member none
    have shown : instructionLine store template before instruction ∈
        functionLines store template := by
      rw [functionLines_eq store (laid template contains).faultless]
      exact List.mem_cons_of_mem _ inLines
    exact isSingleLine_of_instructionLine store loaded
      (single _ (templateLines_subset store contains
        (functionLines_subset store template shown)))
  · intro loads
    exact forall_mem_templateLines store (by decide) script
        fun inner contains =>
      isSingleLine_functionLines store (named.of_contains contains)
        (laid inner contains) (loads inner contains)

end Functions

end Listing

/-! ## Listings of compiled programs -/

theorem compileSource_wellLaid {source file : String}
    {script template : Template}
    (compiled : compileSource source file = .ok script)
    (contains : script.Contains template) :
    template.WellLaid := by
  obtain ⟨_, _, describes⟩ := compileSource_describes compiled contains
  obtain ⟨scriptSound, _⟩ := Machine.compileSource_sound compiled
  cases (contains.sound scriptSound (Machine.compileSource_tidy compiled)).1
    with
  | intro code laidOut _ _ => exact describes.wellLaid laidOut

/-- The names in programs hold no line feeds, and neither do those made for the
script and the clauses. -/
def Wording.singleLines : Wording where
  allows := Text.IsSingleLine
  script := by decide
  clause effect single := .append (by decide) single

/-- Which listings are tables. Cut at its line feeds, the listing of a program
that compiles has a header and one line for each instruction, for the script and
then, each behind an empty line, for every function inside it, exactly if no
text that is loaded somewhere in the program holds a line feed. -/
theorem listing_is_table_iff {source file : String} {script : Template}
    (compiled : compileSource source file = .ok script) (store : Store) :
    (∃ lines, script.ListedBy lines ∧ Text.pieces (script.listing store) =
        lines ++ [""]) ↔
      ∀ template, script.Contains template →
        ∀ text ∈ template.loadedTexts, Text.IsSingleLine text := by
  have laid : ∀ template, script.Contains template → template.WellLaid :=
      fun template =>
    compileSource_wellLaid compiled
  have named : script.Named Text.IsSingleLine :=
    compileSource_namedBy .singleLines
      (fun name => Text.isSingleLine_identifier) compiled
  rw [Listing.table_iff_isSingleLine store fun template contains =>
    (laid template contains).faultless]
  exact Listing.isSingleLine_templateLines_iff store named laid

/-- A script that loads a text with a blank in it, with a function inside. -/
theorem listing_of_text_with_blank_is_table :
    ∃ script lines, compileSource "fn f(x) { x } \"a b\"" "main" = .ok script ∧
      script.loadedTexts = ["a b"] ∧ script.ListedBy lines ∧
      Text.pieces (script.listing {}) = lines ++ [""] := by
  have checked : (compileSource "fn f(x) { x } \"a b\"" "main").toOption.any
      (fun script =>
      script.loadedTexts = ["a b"] ∧
      script.functions.flatMap Template.loadedTexts = [] ∧
        script.functions.flatMap Template.functions = []) := by decide +kernel
  obtain ⟨script, found, holds⟩ := (Option.any_eq_true _ _).1 checked
  obtain ⟨own, inner, flat⟩ := of_decide_eq_true holds
  have compiled := Outcome.eq_ok_of_toOption found
  have loads : ∀ template, script.Contains template →
      ∀ text ∈ template.loadedTexts, Text.IsSingleLine text := by
    intro template contains text member
    rcases contains.eq_or_exists with rfl | ⟨outer, direct, inside⟩
    · rw [own, List.mem_singleton] at member
      exact member ▸ by decide
    · rcases inside.eq_or_exists with rfl | ⟨deeper, further, _⟩
      · exact absurd (List.mem_flatMap.2 ⟨_, direct, member⟩)
          (inner ▸ List.not_mem_nil)
      · exact absurd (List.mem_flatMap.2 ⟨_, direct, further⟩)
          (flat ▸ List.not_mem_nil)
  obtain ⟨lines, shown, cut⟩ := (listing_is_table_iff compiled {}).2 loads
  exact ⟨script, lines, compiled, own, shown, cut⟩

/-- A text with a line feed in it tears the line of the instruction that loads
it. -/
theorem not_all_listings_are_tables :
    ∃ script, compileSource "\"a\\nb\"" "main" = .ok script ∧
      ¬ ∃ lines, script.ListedBy lines ∧
      Text.pieces (script.listing {}) = lines ++ [""] := by
  have checked : (compileSource "\"a\\nb\"" "main").toOption.any (fun script =>
      script.instructions.length = 2 ∧ script.functions.length = 0 ∧
        (Text.pieces (script.listing {})).length = 5) := by decide +kernel
  obtain ⟨script, found, holds⟩ := (Option.any_eq_true _ _).1 checked
  obtain ⟨two, none, five⟩ := of_decide_eq_true holds
  refine ⟨script, Outcome.eq_ok_of_toOption found, ?_⟩
  rintro ⟨lines, shown, cut⟩
  cases shown with
  | intro own functions =>
      rw [List.length_eq_zero_iff.1 none] at functions
      cases functions
      have length := own.length_eq
      simp only [cut, List.cons_append, List.append_nil, List.length_cons,
        List.length_append, List.length_nil] at five
      omega

end EffectScript
