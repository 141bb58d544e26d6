import EffectScript.Proofs.Effects
import EffectScript.Proofs.Tabulation

/-!
# Operands in listings

A listing shows the operands of an instruction as a text. What it *shows* can be
read off that text: an index with a name or with the display form of a constant,
a slot, a count, or the destination of a jump. The machine reads the same bytes
by itself. It does what is shown, unless it faults: it goes to that destination,
looks for that name, pushes that constant, and uses that slot or that count.
-/

namespace EffectScript

namespace Listing

/-! ## What is shown -/

/-- What a listing shows behind the mnemonic of an instruction. -/
inductive Shown where
  | nothing
  | constant (index : UInt8) (display? : Option String)
  | name (index : UInt8) (name? : Option String)
  | slot (place : UInt8) (name? : Option String)
  | count (number : UInt8)
  | jump (origin destination : Nat)
  | registration (index : UInt8) (effect? : Option String)
      (origin destination : Nat)
  | comment (text? : Option String)

/-- A text between two marks, or another mark for a missing one. -/
def enclosed (front back missing : String) : Option String → String
  | some text => front ++ text ++ back
  | none => missing

/-- A name or a display form between quotation marks; there is none for an index
that is out of range. -/
def quoted : Option String → String :=
  enclosed "'" "'" "<?>"

/-- A name in parentheses, if there is one. -/
def parenthesized : Option String → String :=
  enclosed " (" ")" ""

/-- A remark behind a semicolon, if there is one. -/
def remark : Option String → String :=
  enclosed "; " "" ""

/-- What is shown as a text. -/
def Shown.text : Shown → String
  | .nothing => ""
  | .constant index display? => toString index ++ " " ++ quoted display?
  | .name index name? => toString index ++ " " ++ quoted name?
  | .slot place name? => toString place ++ parenthesized name?
  | .count number => toString number
  | .jump origin destination => jumpOperand origin destination
  | .registration index effect? origin destination =>
      toString index ++ " " ++ quoted effect? ++ " " ++
        jumpOperand origin destination
  | .comment text? => remark text?

/-- The kinds of operands. -/
inductive OperandKind where
  | nothing
  | constant
  | name
  | slot
  | count
  | jump
  | registration
  | comment

/-- What kind of operands is shown. -/
def Shown.kind : Shown → OperandKind
  | .nothing => .nothing
  | .constant _ _ => .constant
  | .name _ _ => .name
  | .slot _ _ => .slot
  | .count _ => .count
  | .jump _ _ => .jump
  | .registration _ _ _ _ => .registration
  | .comment _ => .comment

/-- What kind of operands an operation has. -/
def operandKind : Opcode → OperandKind
  | .loadConst | .makeClosure => .constant
  | .loadGlobal | .storeGlobal | .perform => .name
  | .loadLocal | .storeLocal | .loadHeap | .storeHeap => .slot
  | .call | .popHandlers => .count
  | .jump | .jumpIfFalse | .loop => .jump
  | .setHandler => .registration
  | .comment => .comment
  | _ => .nothing

/-- What the listing of a function shows of an instruction. -/
def shown (store : Store) (template : Template) (instruction : Instruction) :
    Shown :=
  let index := instruction.byte
  match instruction.opcode with
  | .loadConst | .makeClosure =>
      .constant index
        ((template.constant? index).map fun value => value.display store)
  | .loadGlobal | .storeGlobal | .perform => .name index (template.name? index)
  | .loadLocal | .storeLocal | .loadHeap | .storeHeap =>
      .slot index (template.debug.slotName? index)
  | .call | .popHandlers => .count index
  | .jump | .jumpIfFalse =>
      .jump instruction.offset (instruction.next + instruction.short)
  | .loop => .jump instruction.offset (instruction.next - instruction.short)
  | .setHandler => .registration index (template.name? index) instruction.offset
      (instruction.next + instruction.trailingShort)
  | .comment => .comment (template.debug.commentAt? instruction.offset)
  | _ => .nothing

variable (store : Store) (template : Template) (instruction : Instruction)

theorem kind_shown :
    (shown store template instruction).kind =
      operandKind instruction.opcode := by
  unfold shown
  cases instruction.opcode <;> rfl

theorem quoted_some (index : UInt8) (text : String) :
    toString index ++ " '" ++ text ++ "'" = toString index ++ " " ++
      quoted (some text) := by
  rw [show " '" = " " ++ "'" from rfl, quoted, enclosed]
  simp only [String.append_assoc]

theorem quoted_none (index : UInt8) :
    toString index ++ " <?>" = toString index ++ " " ++ quoted none := by
  rw [show " <?>" = " " ++ "<?>" from rfl, quoted, enclosed,
    String.append_assoc]

theorem nameOperand_eq (index : UInt8) :
    nameOperand template index = toString index ++ " " ++
      quoted (template.name? index) := by
  unfold nameOperand
  cases template.name? index with
  | none => exact quoted_none index
  | some name => exact quoted_some index name

/-- The operands in a listing are what is shown. -/
theorem operands_eq :
    operands store template instruction =
      (shown store template instruction).text := by
  unfold operands shown
  cases instruction.opcode with
  | loadConst | makeClosure =>
      simp only [constantOperand, Shown.text]
      cases template.constant? instruction.byte with
      | none => exact quoted_none _
      | some value => exact quoted_some _ _
  | loadGlobal | storeGlobal | perform => exact nameOperand_eq template _
  | loadLocal | storeLocal | loadHeap | storeHeap =>
      simp only [slotOperand, Shown.text]
      cases template.debug.slotName? instruction.byte with
      | none => exact String.append_empty.symm
      | some name => simp only [parenthesized, enclosed, String.append_assoc]
  | setHandler => simp only [nameOperand_eq, Shown.text]
  | comment =>
      simp only [Shown.text]
      cases template.debug.commentAt? instruction.offset with
      | none => rfl
      | some text => exact String.append_empty.symm
  | _ => rfl

/-! ## Reading what is shown -/

section Reading

variable {keeps : Char → Bool} {front rest first second more : List Char}
    {number other : Nat}

/-- Two texts that begin with all characters of a kind are split in the same
way. -/
theorem append_inj_of_stops
    (firstKept : ∀ character ∈ first, keeps character)
    (secondKept : ∀ character ∈ second, keeps character)
    (restStops : ∀ character ∈ rest.head?, keeps character = false)
    (moreStops : ∀ character ∈ more.head?, keeps character = false)
    (same : first ++ rest = second ++ more) :
    first = second ∧ rest = more := by
  have nothing {rest : List Char}
      (stops : ∀ character ∈ rest.head?, keeps character = false) :
      rest.takeWhile keeps = [] := by
    cases rest with
    | nil => rfl
    | cons character others =>
        exact List.takeWhile_cons_of_neg (by simp [stops character rfl])
  have taken := congrArg (List.takeWhile keeps) same
  rw [List.takeWhile_append_of_pos firstKept,
    List.takeWhile_append_of_pos secondKept, nothing restStops,
    nothing moreStops, List.append_nil, List.append_nil] at taken
  exact ⟨taken, List.append_cancel_left (taken ▸ same)⟩

theorem isDigit_of_mem_number (number : Nat) :
    ∀ character ∈ (toString number).toList, character.isDigit = true := by
  show ∀ character ∈ number.repr.toList, _
  rw [Nat.toList_repr]
  exact fun character member =>
    Nat.isDigit_of_mem_toDigits (by decide) (by decide) member

theorem number_injective
    (same : (toString number).toList = (toString other).toList) :
    number = other :=
  Nat.repr_inj.1 (String.toList_inj.1 same)

/-- A number in front of something else can be read. -/
theorem number_append_inj
    (restStops : ∀ character ∈ rest.head?, character.isDigit = false)
    (moreStops : ∀ character ∈ more.head?, character.isDigit = false)
    (same : (toString number).toList ++
      rest = (toString other).toList ++ more) :
    number = other ∧ rest = more := by
  obtain ⟨digits, rests⟩ := append_inj_of_stops (isDigit_of_mem_number number)
    (isDigit_of_mem_number other) restStops moreStops same
  exact ⟨number_injective digits, rests⟩

/-- A number behind something else can be read. -/
theorem append_number_inj
    (restStops : ∀ character ∈ rest.getLast?, character.isDigit = false)
    (moreStops : ∀ character ∈ more.getLast?, character.isDigit = false)
    (same : rest ++ (toString number).toList = more ++
      (toString other).toList) :
    number = other ∧ rest = more := by
  have reversed := congrArg List.reverse same
  rw [List.reverse_append, List.reverse_append] at reversed
  obtain ⟨digits, rests⟩ := @append_inj_of_stops Char.isDigit _ _ _ _
    (fun character member => isDigit_of_mem_number number character
      (List.mem_reverse.1 member))
    (fun character member => isDigit_of_mem_number other character
      (List.mem_reverse.1 member))
    (by rwa [List.head?_reverse]) (by rwa [List.head?_reverse]) reversed
  exact ⟨number_injective (List.reverse_injective digits),
    List.reverse_injective rests⟩

end Reading

/-- A text between marks can be read, if the mark for a missing one does not
begin like them. -/
theorem enclosed_injective {front back missing : String}
    {text? other? : Option String}
    (apart : ¬ front.toList <+: missing.toList)
    (same : enclosed front back missing text? = enclosed front back
      missing other?) :
    text? = other? := by
  have begins (text : String) :
      front.toList <+: (enclosed front back missing (some text)).toList := by
    simp only [enclosed, String.toList_append, List.append_assoc,
      List.prefix_append]
  cases text? with
  | none =>
      cases other? with
      | none => rfl
      | some other =>
          have opened := begins other
          rw [← same] at opened
          exact absurd opened apart
  | some text =>
      cases other? with
      | none =>
          have opened := begins text
          rw [same] at opened
          exact absurd opened apart
      | some other =>
          have characters := congrArg String.toList same
          simp only [enclosed, String.toList_append] at characters
          rw [String.toList_inj.1
            (List.append_cancel_left (List.append_cancel_right characters))]

/-- A jump behind something else can be read. -/
theorem append_jumpOperand_inj {front more : List Char}
    {origin destination other landing : Nat}
    (frontStops : ∀ character ∈ front.getLast?, character.isDigit = false)
    (moreStops : ∀ character ∈ more.getLast?, character.isDigit = false)
    (same : front ++ (jumpOperand origin destination).toList = more ++
      (jumpOperand other landing).toList) :
    front = more ∧ origin = other ∧ destination = landing := by
  simp only [jumpOperand, String.toList_append, ← List.append_assoc] at same
  obtain ⟨rfl, fronts⟩ := append_number_inj (by simp) (by simp) same
  obtain ⟨rfl, rfl⟩ :=
    append_number_inj frontStops moreStops (List.append_cancel_right fronts)
  exact ⟨rfl, rfl, rfl⟩

theorem blank_stops (text : String) :
    ∀ character ∈ (text ++ " ").toList.getLast?, character.isDigit = false := by
  rw [String.toList_append, show " ".toList = [' '] from rfl,
    List.getLast?_concat]
  rintro _ ⟨⟩
  decide

/-- An index behind which there is something in quotation marks can be read. -/
theorem index_quoted_inj {index other : UInt8} {text? other? : Option String}
    (same : toString index ++ " " ++ quoted text? = toString other ++ " " ++
      quoted other?) :
    index = other ∧ text? = other? := by
  have characters := congrArg String.toList same
  simp only [String.toList_append, List.append_assoc] at characters
  obtain ⟨indices, rest⟩ := @number_append_inj _ _ index.toNat other.toNat
    (by simp) (by simp) characters
  exact ⟨UInt8.toNat_inj.1 indices,
    enclosed_injective (by decide)
      (String.toList_inj.1 (List.append_cancel_left rest))⟩

/-- A text shows only one thing of a kind. -/
theorem Shown.text_injective {first second : Shown}
    (kinds : first.kind = second.kind)
    (same : first.text = second.text) :
    first = second := by
  cases first with
  | nothing =>
      cases second with
      | nothing => rfl
      | _ => cases kinds
  | constant index display? =>
      cases second with
      | constant other other? =>
          obtain ⟨rfl, rfl⟩ := index_quoted_inj same
          rfl
      | _ => cases kinds
  | name index name? =>
      cases second with
      | name other other? =>
          obtain ⟨rfl, rfl⟩ := index_quoted_inj same
          rfl
      | _ => cases kinds
  | slot place name? =>
      cases second with
      | slot other other? =>
          have characters := congrArg String.toList same
          have stops (name? : Option String) :
              ∀ character ∈ (parenthesized name?).toList.head?,
              character.isDigit = false := by
            cases name? <;> simp [parenthesized, enclosed, String.toList_append]
          simp only [Shown.text, String.toList_append] at characters
          obtain ⟨places, names⟩ :=
            @number_append_inj _ _ place.toNat other.toNat (stops _) (stops _)
            characters
          rw [UInt8.toNat_inj.1 places, enclosed_injective (by decide)
            (String.toList_inj.1 names)]
      | _ => cases kinds
  | count number =>
      cases second with
      | count other =>
          have numbers : number.toNat = other.toNat :=
            number_injective (congrArg String.toList same)
          rw [UInt8.toNat_inj.1 numbers]
      | _ => cases kinds
  | jump origin destination =>
      cases second with
      | jump other landing =>
          obtain ⟨_, rfl, rfl⟩ :=
            @append_jumpOperand_inj [] [] _ _ _ _ (by simp) (by simp)
            (congrArg String.toList same)
          rfl
      | _ => cases kinds
  | registration index effect? origin destination =>
      cases second with
      | registration other other? place landing =>
          have characters :
              (toString index ++ " " ++ quoted effect? ++ " ").toList ++
              (jumpOperand origin destination).toList =
              (toString other ++ " " ++ quoted other? ++ " ").toList ++
              (jumpOperand place landing).toList := by
            rw [← String.toList_append, ← String.toList_append]
            exact congrArg String.toList same
          obtain ⟨fronts, rfl, rfl⟩ :=
            append_jumpOperand_inj (blank_stops _) (blank_stops _) characters
          obtain ⟨rfl, rfl⟩ :=
            index_quoted_inj
              ((String.append_left_inj " ").1 (String.toList_inj.1 fronts))
          rfl
      | _ => cases kinds
  | comment text? =>
      cases second with
      | comment other? => rw [enclosed_injective (by decide) same]
      | _ => cases kinds

/-! ## Ends of lines -/

/-- The text ends with a character that is no white space. -/
def EndsSolid (text : String) : Prop :=
  ∃ last, text.toList.getLast? = some last ∧ Text.isWhiteSpace last = false

theorem EndsSolid.behind {text : String}
    (ends : EndsSolid text) (front : String) :
    EndsSolid (front ++ text) := by
  obtain ⟨last, isLast, solid⟩ := ends
  refine ⟨last, ?_, solid⟩
  rw [String.toList_append, List.getLast?_append, isLast]
  rfl

theorem isWhiteSpace_of_isDigit {character : Char}
    (digit : character.isDigit = true) :
    Text.isWhiteSpace character = false := by
  obtain ⟨least, greatest⟩ := Char.isDigit_iff_toNat.1 digit
  simp only [Text.isWhiteSpace]
  generalize character.toNat = codePoint at *
  simp at *
  omega

theorem endsSolid_number (number : Nat) : EndsSolid (toString number) := by
  have some : (toString number).toList ≠ [] := by
    show number.repr.toList ≠ []
    rw [Nat.toList_repr]
    exact Nat.toDigits_ne_nil
  exact ⟨_, List.getLast?_eq_some_getLast some,
    isWhiteSpace_of_isDigit
      (isDigit_of_mem_number number _ (List.getLast_mem some))⟩

theorem endsSolid_quoted (text? : Option String) :
    EndsSolid (quoted text?) := by
  have mark : EndsSolid "'" := ⟨'\'', rfl, by decide⟩
  cases text? with
  | none => exact ⟨'>', rfl, by decide⟩
  | some text => exact mark.behind _

theorem endsSolid_parenthesized {text : String}
    (ends : EndsSolid text) (name? : Option String) :
    EndsSolid (text ++ parenthesized name?) := by
  have mark : EndsSolid ")" := ⟨')', rfl, by decide⟩
  cases name? with
  | none => rwa [parenthesized, enclosed, String.append_empty]
  | some name => exact (mark.behind _).behind _

/-- The line of an instruction ends with its operands, if it has any. -/
theorem instructionLine_ends {instruction : Instruction}
    (store : Store) (template : Template) (previous : Option UInt32)
    (some : instruction.opcode.operandCount ≠ 0) :
    ∃ front, instructionLine store template previous instruction =
      front ++ operands store template instruction := by
  have ends : EndsSolid (operands store template instruction) := by
    rw [operands_eq]
    unfold shown
    cases operation : instruction.opcode with
    | loadConst | makeClosure | loadGlobal | storeGlobal | perform =>
        exact (endsSolid_quoted _).behind _
    | loadLocal | storeLocal | loadHeap | storeHeap =>
        exact endsSolid_parenthesized (endsSolid_number _) _
    | call | popHandlers => exact endsSolid_number _
    | jump | jumpIfFalse | loop => exact (endsSolid_number _).behind _
    | setHandler => exact ((endsSolid_number _).behind _).behind _
    | _ =>
        rw [operation] at some
        exact absurd rfl some
  obtain ⟨last, isLast, solid⟩ := ends.behind
    (String.ofList (List.replicate (16 - instruction.opcode.mnemonic.length)
      ' ') ++ " ")
  refine ⟨columns template previous instruction ++
    (String.ofList (List.replicate (16 - instruction.opcode.mnemonic.length)
      ' ') ++ " "), ?_⟩
  rw [instructionLine_eq, lastColumn, Text.trimEnd_eq isLast solid]
  simp only [String.append_assoc]

end Listing

open Listing (Shown shown)

namespace Machine

/-! ## What the machine does -/

/-- What the outcome of an operation makes of a step. -/
def settle (machine : Machine) (outcome : Except Failure Machine) : Step :=
  match outcome with
  | .ok after => .running after
  | .error failure => machine.fail failure

/-- The outcome of an operation is what is shown. The newest frame is given as
it is behind the fetch, when its offset is that of the next instruction. -/
inductive Obeys
    (store : Store) (machine : Machine) (frame : Frame) (below : List Frame) :
    Opcode → Shown → Except Failure Machine → Prop
  | loadConst {index : UInt8} {value : Value}
      (constant : frame.template.constant? index = some value) :
      Obeys store machine frame below .loadConst
        (.constant index (some (value.display store)))
        (.ok { machine with frames := frame.given value :: below })
  | makeClosure {index : UInt8} {identity : Nat} {template : Template}
      {boxes : List Nat}
      (constant : frame.template.constant? index =
        some (.function identity template)) :
      Obeys store machine frame below .makeClosure
        (.constant index
          (some ((Value.function identity template).display store)))
        (.ok { machine.take 1 with
          frames := frame.given
            (.closure ⟨machine.store.unused, template, boxes⟩) :: below })
  | loadGlobal {index : UInt8} {name : String} {value : Value}
      (found : machine.globals.find? name = some value) :
      Obeys store machine frame below .loadGlobal (.name index (some name))
        (.ok { machine with frames := frame.given value :: below })
  | missGlobal {index : UInt8} {name : String}
      (missing : machine.globals.find? name = none) :
      Obeys store machine frame below .loadGlobal (.name index (some name))
        (.error (.exception (Exception.undefinedName name)))
  | storeGlobal {index : UInt8} {name : String} {value : Value}
      {rest : List Value}
      (stack : frame.stack = value :: rest) :
      Obeys store machine frame below .storeGlobal (.name index (some name))
        (.ok { machine with
          frames := { frame with stack := rest } :: below
          globals := machine.globals.insert name value })
  | perform {index : UInt8} {effect : String} {payload : Value}
      {rest : List Value} {dispatch : Dispatch}
      (stack : frame.stack = payload :: rest)
      (found : Dispatch.find? effect machine.handlers = some dispatch) :
      Obeys store machine frame below .perform (.name index (some effect)) (do
        let called ← ({ machine with
          frames := { frame with stack := rest } :: below
          handlers := dispatch.staying } : Machine).callValue
            (.closure dispatch.handler.closure) [payload]
        called.tie
          { resumeInto := below.length
            handlerFrame := dispatch.handler.frame
            depth := dispatch.handler.depth
            target := dispatch.handler.target
            groupStart := dispatch.staying.length
            stash := dispatch.stash })
  | missHandler {index : UInt8} {effect : String}
      (missing : Dispatch.find? effect machine.handlers = none) :
      Obeys store machine frame below .perform (.name index (some effect))
        (.error (.unhandled effect []))
  | setHandler {index : UInt8} {effect : String} {origin destination : Nat}
      {closure : Closure}
      {rest : List Value} (stack : frame.stack = .closure closure :: rest) :
      Obeys store machine frame below .setHandler
        (.registration index (some effect) origin destination)
        (.ok { machine with
          frames := { frame with stack := rest } :: below
          handlers := ⟨effect, closure, below.length, rest.length,
            destination⟩ :: machine.handlers })
  | refuseHandler {index : UInt8} {effect : String} {origin destination : Nat}
      {value : Value}
      {rest : List Value} (stack : frame.stack = value :: rest)
      (noClosure : ∀ closure, value ≠ .closure closure) :
      Obeys store machine frame below .setHandler
        (.registration index (some effect) origin destination)
        (.error
          (.exception (Exception.handlerNotFunction effect value.typeName)))
  | loadLocal {place : UInt8} {name? : Option String} {value : Value}
      (held : frame.slots[place.toNat]? = some value) :
      Obeys store machine frame below .loadLocal (.slot place name?)
        (.ok { machine with frames := frame.given value :: below })
  | storeLocal {place : UInt8} {name? : Option String} {value : Value}
      {rest : List Value}
      (stack : frame.stack = value :: rest)
        (inside : place.toNat < frame.slots.length) :
      Obeys store machine frame below .storeLocal (.slot place name?)
        (.ok { machine with
          frames :=
            { frame with stack := rest, slots :=
              frame.slots.set place.toNat value } :: below })
  | loadHeap {place : UInt8} {name? : Option String} {cell : Nat}
      (held : frame.slots[place.toNat]? = some (.box cell)) :
      Obeys store machine frame below .loadHeap (.slot place name?)
        (.ok
          { machine with frames :=
              frame.given (machine.store.read cell) :: below })
  | storeHeap {place : UInt8} {name? : Option String} {cell : Nat}
      {value : Value} {rest : List Value}
      (stack : frame.stack = value :: rest)
        (held : frame.slots[place.toNat]? = some (.box cell)) :
      Obeys store machine frame below .storeHeap (.slot place name?)
        (.ok { machine with
          frames := { frame with stack := rest } :: below
          store := machine.store.write cell value })
  | call {number : UInt8} {callee : Value} {arguments rest : List Value}
      (stack : frame.stack = arguments.reverse ++ callee :: rest)
      (count : arguments.length = number.toNat) :
      Obeys store machine frame below .call (.count number)
        (({ machine with frames := { frame with stack := rest } :: below } :
          Machine).callValue callee
          arguments)
  | popHandlers {number : UInt8} :
      Obeys store machine frame below .popHandlers (.count number)
        (.ok { machine with
          frames := frame :: below
          handlers := machine.handlers.drop number.toNat })
  | jump {origin destination : Nat} :
      Obeys store machine frame below .jump (.jump origin destination)
        (.ok { machine with frames :=
          { frame with ip := destination } :: below })
  | loop {origin destination : Nat} :
      Obeys store machine frame below .loop (.jump origin destination)
        (.ok { machine with frames :=
          { frame with ip := destination } :: below })
  | jumpIfFalse {origin destination : Nat} {condition : Value}
      {rest : List Value}
      (stack : frame.stack = condition :: rest)
        (falsy : condition.isTruthy = false) :
      Obeys store machine frame below .jumpIfFalse (.jump origin destination)
        (.ok { machine with frames :=
          { frame with stack := rest, ip := destination } :: below })
  | goOn {origin destination : Nat} {condition : Value} {rest : List Value}
      (stack : frame.stack = condition :: rest)
        (truthy : condition.isTruthy = true) :
      Obeys store machine frame below .jumpIfFalse (.jump origin destination)
        (.ok { machine with frames := { frame with stack := rest } :: below })

/-- The computation does not end in a fault. -/
def Faultless {α : Type} (computation : Except Failure α) : Prop :=
  ∀ fault, computation ≠ .error (.fault fault)

namespace Faultless

variable {machine : Machine} {frame : Frame} {below : List Frame} {α β : Type}

theorem first {computation : Except Failure α}
    {next : α → Except Failure β}
    (faultless : Faultless (computation >>= next)) :
    Faultless computation := by
  rintro fault rfl
  exact faultless fault rfl

theorem push {value : Value}
    (faultless : Faultless (machine.push value))
    (frames : machine.frames = frame :: below) :
    machine.push value =
      .ok { machine with frames := frame.given value :: below } := by
  rcases @push_orFaults _ _ _ value frames
    with ⟨_, pushes, rfl⟩ | ⟨fault, faults⟩
  · exact pushes
  · exact absurd faults (faultless fault)

theorem framePop (faultless : Faultless frame.pop) :
    ∃ value rest, frame.stack = value :: rest ∧
      frame.pop = .ok (value, { frame with stack := rest }) := by
  unfold Frame.pop at faultless ⊢
  cases stack : frame.stack with
  | nil =>
      rw [stack] at faultless
      exact absurd rfl (faultless .stackUnderflow)
  | cons value rest => exact ⟨value, rest, rfl, rfl⟩

theorem pop
    (faultless : Faultless machine.pop)
    (frames : machine.frames = frame :: below) :
    ∃ value rest, frame.stack = value :: rest ∧
      machine.pop = .ok
        (value, { machine with frames :=
          { frame with stack := rest } :: below }) := by
  have framePops : Faultless frame.pop := by
    intro fault faults
    apply faultless fault
    rw [Machine.pop, top_eq frames, Outcome.ok_bind, faults]
    rfl
  obtain ⟨value, rest, stack, _⟩ := framePops.framePop
  exact ⟨value, rest, stack, pop_eq frames stack⟩

theorem slot {place : UInt8} (faultless : Faultless (frame.slot place)) :
    ∃ value, frame.slots[place.toNat]? = some value ∧
      frame.slot place = .ok value := by
  unfold Frame.slot at faultless ⊢
  cases held : frame.slots[place.toNat]? with
  | none =>
      rw [held] at faultless
      exact absurd rfl (faultless _)
  | some value => exact ⟨value, rfl, rfl⟩

theorem named {template : Template} {index : UInt8}
    (faultless : Faultless (operandName template index)) :
    ∃ name, template.name? index = some name ∧
      operandName template index = .ok name := by
  unfold operandName at faultless ⊢
  cases found : template.name? index with
  | none =>
      rw [found] at faultless
      exact absurd rfl (faultless _)
  | some name => exact ⟨name, rfl, rfl⟩

end Faultless

theorem captureBoxes_cases (frame : Frame) (slots : List UInt8) :
    (∃ boxes, captureBoxes frame slots = .ok boxes) ∨
      ∃ fault, captureBoxes frame slots = .error (.fault fault) := by
  induction slots with
  | nil => exact .inl ⟨[], rfl⟩
  | cons slot slots inner =>
      unfold captureBoxes Frame.slot
      cases frame.slots[slot.toNat]? with
      | none => exact .inr ⟨_, rfl⟩
      | some value =>
          simp only [Outcome.ok_bind]
          cases value with
          | box cell =>
              rcases inner with ⟨boxes, captured⟩ | ⟨fault, faults⟩
              · exact .inl ⟨cell :: boxes, by rw [captured]; rfl⟩
              · exact .inr ⟨fault, by rw [faults]; rfl⟩
          | _ => exact .inr ⟨_, rfl⟩

/-! ## Executing -/

section Execute

variable {machine : Machine} {frame : Frame} {below : List Frame}
    {store : Store} {index place : UInt8} {name? : Option String}
    {effect : String}

theorem obeys_makeClosure
    (faultless :
      Faultless
        (({ machine with frames := frame :: below } : Machine).makeClosure
          index)) :
    Obeys store machine frame below .makeClosure
      (.constant index ((frame.template.constant? index).map fun value =>
        value.display store))
      (({ machine with frames := frame :: below } : Machine).makeClosure
        index) := by
  unfold makeClosure at faultless ⊢
  rw [top_eq rfl, Outcome.ok_bind] at faultless ⊢
  simp only at faultless ⊢
  split at faultless
  next identity template constant =>
    rw [constant]
    rcases captureBoxes_cases frame template.capturesOuter
      with ⟨boxes, captured⟩ | ⟨fault, faults⟩
    · simp only [captured, Outcome.ok_bind] at faultless ⊢
      rw [faultless.push rfl]
      exact .makeClosure constant
    · rw [faults] at faultless
      exact absurd rfl (faultless fault)
  next => exact absurd rfl (faultless _)

theorem call_one {argument callee : Value}
    {rest : List Value}
    (frames : machine.frames = frame :: below)
    (stack : frame.stack = argument :: callee :: rest) :
    machine.call 1 =
      ({ machine with frames := { frame with stack := rest } :: below } :
        Machine).callValue callee
        [argument] :=
  @call_eq _ _ _ _ [argument] _ frames stack

theorem obeys_perform
    (faultless :
      Faultless
        (({ machine with frames := frame :: below } : Machine).perform
          effect)) :
    Obeys store machine frame below .perform (.name index (some effect))
      (({ machine with frames := frame :: below } : Machine).perform
        effect) := by
  unfold perform at faultless ⊢
  obtain ⟨payload, rest, stack, pops⟩ := faultless.first.pop rfl
  rw [pops, Outcome.ok_bind] at faultless ⊢
  simp only at faultless ⊢
  cases found : Dispatch.find? effect machine.handlers with
  | none => exact .missHandler found
  | some dispatch =>
      simp only [found] at faultless ⊢
      have pushesHandler := faultless.first.push rfl
      rw [pushesHandler, Outcome.ok_bind] at faultless ⊢
      have pushesPayload := faultless.first.push rfl
      rw [pushesPayload, Outcome.ok_bind, call_one rfl rfl]
      exact .perform stack found

theorem obeys_setHandler {origin distance : Nat}
    (faultless :
      Faultless
        (({ machine with frames := frame :: below } : Machine).setHandler effect
          distance)) :
    Obeys store machine frame below .setHandler
      (.registration index (some effect) origin (frame.ip + distance))
      (({ machine with frames := frame :: below } : Machine).setHandler effect
        distance) := by
  unfold setHandler at faultless ⊢
  obtain ⟨value, rest, stack, pops⟩ := faultless.first.pop rfl
  rw [pops, Outcome.ok_bind]
  simp only
  rw [top_eq rfl, Outcome.ok_bind]
  cases value with
  | closure made => exact .setHandler stack
  | _ => exact .refuseHandler stack (by rintro _ ⟨⟩)

theorem obeys_loadHeap {instruction : Instruction}
    (faultless :
      Faultless (({ machine with frames := frame :: below } : Machine).loadHeap
        instruction)) :
    Obeys store machine frame below .loadHeap (.slot instruction.byte name?)
      (({ machine with frames := frame :: below } : Machine).loadHeap
        instruction) := by
  unfold loadHeap at faultless ⊢
  rw [top_eq rfl, Outcome.ok_bind] at faultless ⊢
  obtain ⟨value, held, reads⟩ := faultless.first.slot
  rw [reads, Outcome.ok_bind] at faultless ⊢
  cases value with
  | box cell =>
      simp only at faultless ⊢
      rw [faultless.push rfl]
      exact .loadHeap held
  | _ => exact absurd rfl (faultless _)

theorem obeys_storeHeap {instruction : Instruction}
    (faultless :
      Faultless (({ machine with frames := frame :: below } : Machine).storeHeap
        instruction)) :
    Obeys store machine frame below .storeHeap (.slot instruction.byte name?)
      (({ machine with frames := frame :: below } : Machine).storeHeap
        instruction) := by
  unfold storeHeap at faultless ⊢
  obtain ⟨value, rest, stack, pops⟩ := faultless.first.pop rfl
  rw [pops, Outcome.ok_bind] at faultless ⊢
  simp only at faultless ⊢
  rw [top_eq rfl, Outcome.ok_bind] at faultless ⊢
  obtain ⟨held, present, reads⟩ := faultless.first.slot
  rw [reads, Outcome.ok_bind] at faultless ⊢
  cases held with
  | box cell => exact .storeHeap stack present
  | _ => exact absurd rfl (faultless _)

theorem obeys_call {number : UInt8}
    (faultless :
      Faultless (({ machine with frames := frame :: below } : Machine).call
        number.toNat)) :
    Obeys store machine frame below .call (.count number)
      (({ machine with frames := frame :: below } : Machine).call
        number.toNat) := by
  unfold call at faultless ⊢
  rw [top_eq rfl, Outcome.ok_bind] at faultless ⊢
  cases parts : frame.stack.drop number.toNat with
  | nil =>
      simp only [parts] at faultless
      exact absurd rfl (faultless .stackUnderflow)
  | cons callee rest =>
      have inside : number.toNat < frame.stack.length := by
        apply Nat.lt_of_not_le
        intro short
        rw [List.drop_eq_nil_of_le short] at parts
        cases parts
      have stack : frame.stack =
          (frame.stack.take number.toNat).reverse.reverse ++
            callee :: rest := by
        rw [List.reverse_reverse, ← parts, List.take_append_drop]
      refine .call stack ?_
      rw [List.length_reverse, List.length_take,
        Nat.min_eq_left (Nat.le_of_lt inside)]

/-- Going on with the machine that an operation leads to. -/
abbrev onward (outcome : Except Failure Machine) : Except Failure Flow :=
  outcome >>= fun after => pure (Flow.onward after)

/-- Executing an instruction with operands does what the listing shows, unless
it faults. -/
theorem execute_obeys {instruction : Instruction}
    (store : Store)
    (behind : frame.ip = instruction.next)
    (operands : instruction.opcode.operandCount ≠ 0)
    (faultless :
      Faultless (({ machine with frames := frame :: below } : Machine).execute
        instruction)) :
    ∃ outcome,
      Obeys store machine frame below instruction.opcode
        (shown store frame.template instruction) outcome ∧
      ({ machine with frames := frame :: below } : Machine).execute
        instruction = onward outcome := by
  unfold execute at faultless ⊢
  unfold shown
  rw [top_eq rfl, Outcome.ok_bind] at faultless ⊢
  cases operation : instruction.opcode with
  | loadConst =>
      simp only [operation] at faultless ⊢
      cases constant : frame.template.constant? instruction.byte with
      | none =>
          rw [constant] at faultless
          exact absurd rfl (faultless _)
      | some value =>
          simp only [constant] at faultless ⊢
          rw [faultless.first.push rfl]
          exact ⟨_, .loadConst constant, rfl⟩
  | makeClosure =>
      simp only [operation] at faultless ⊢
      exact ⟨_, obeys_makeClosure faultless.first, rfl⟩
  | loadGlobal =>
      simp only [operation] at faultless ⊢
      obtain ⟨name, named, goes⟩ := faultless.first.named
      rw [goes, Outcome.ok_bind] at faultless ⊢
      rw [named]
      cases found : machine.globals.find? name with
      | none => exact ⟨_, .missGlobal found, rfl⟩
      | some value =>
          simp only [found] at faultless ⊢
          rw [faultless.first.push rfl]
          exact ⟨_, .loadGlobal found, rfl⟩
  | storeGlobal =>
      simp only [operation] at faultless ⊢
      obtain ⟨name, named, goes⟩ := faultless.first.named
      rw [goes, Outcome.ok_bind] at faultless ⊢
      obtain ⟨value, rest, stack, pops⟩ := faultless.first.pop rfl
      rw [pops, named]
      exact ⟨_, .storeGlobal stack, rfl⟩
  | perform =>
      simp only [operation] at faultless ⊢
      obtain ⟨name, named, goes⟩ := faultless.first.named
      rw [goes, Outcome.ok_bind] at faultless ⊢
      rw [named]
      exact ⟨_, obeys_perform faultless.first, rfl⟩
  | setHandler =>
      simp only [operation] at faultless ⊢
      obtain ⟨name, named, goes⟩ := faultless.first.named
      rw [goes, Outcome.ok_bind] at faultless ⊢
      rw [named, ← behind]
      exact ⟨_, obeys_setHandler faultless.first, rfl⟩
  | loadLocal =>
      simp only [operation] at faultless ⊢
      obtain ⟨value, held, reads⟩ := faultless.first.slot
      rw [reads, Outcome.ok_bind] at faultless ⊢
      rw [faultless.first.push rfl]
      exact ⟨_, .loadLocal held, rfl⟩
  | storeLocal =>
      simp only [operation] at faultless ⊢
      obtain ⟨value, rest, stack, pops⟩ := faultless.first.framePop
      rw [pops, Outcome.ok_bind] at faultless ⊢
      simp only [Frame.setSlot] at faultless ⊢
      by_cases inside : instruction.byte.toNat < frame.slots.length
      · rw [if_pos inside]
        exact ⟨_, .storeLocal stack inside, rfl⟩
      · rw [if_neg inside] at faultless
        exact absurd rfl (faultless _)
  | loadHeap =>
      simp only [operation] at faultless ⊢
      exact ⟨_, obeys_loadHeap faultless.first, rfl⟩
  | storeHeap =>
      simp only [operation] at faultless ⊢
      exact ⟨_, obeys_storeHeap faultless.first, rfl⟩
  | call =>
      simp only [operation] at faultless ⊢
      exact ⟨_, obeys_call faultless.first, rfl⟩
  | popHandlers =>
      simp only [operation] at faultless ⊢
      exact ⟨_, .popHandlers, rfl⟩
  | jump =>
      simp only [operation] at faultless ⊢
      rw [← behind]
      exact ⟨_, .jump, rfl⟩
  | loop =>
      simp only [operation] at faultless ⊢
      rw [← behind]
      by_cases inside : instruction.short ≤ frame.ip
      · rw [if_pos inside]
        exact ⟨_, .loop, rfl⟩
      · rw [if_neg inside] at faultless
        exact absurd rfl (faultless _)
  | jumpIfFalse =>
      simp only [operation] at faultless ⊢
      obtain ⟨condition, rest, stack, pops⟩ := faultless.first.framePop
      rw [pops, Outcome.ok_bind, ← behind]
      cases truth : condition.isTruthy with
      | true => exact ⟨_, .goOn stack truth, if_pos rfl⟩
      | false => exact ⟨_, .jumpIfFalse stack truth, if_neg Bool.false_ne_true⟩
  | _ =>
      rw [operation] at operands
      exact absurd rfl operands

/-- For every function, compiled or not, and every offset at which an
instruction can be decoded: the operands in the listing show one thing, and a
step of a machine that is there and does not fault does what is shown. The line
of the instruction ends with its operands. -/
theorem listing_shows_what_steps_do
    {instruction : Instruction}
    (store : Store) (previous : Option UInt32)
    (frames : machine.frames = frame :: below)
    (decodes : Instruction.decode frame.template.code frame.ip =
      .ok instruction)
    (faultless : ∀ fault final, machine.step ≠ .failed (.fault fault) final) :
    (Listing.operands store frame.template instruction =
        (shown store frame.template instruction).text ∧
      ∀ other : Shown, other.kind = Listing.operandKind instruction.opcode →
        other.text = (shown store frame.template instruction).text →
        other = shown store frame.template instruction) ∧
    (instruction.opcode.operandCount ≠ 0 →
      (∃ front, Listing.instructionLine store frame.template previous
          instruction =
        front ++ Listing.operands store frame.template instruction) ∧
      ∃ outcome,
        Obeys store machine { frame with ip := instruction.next } below
          instruction.opcode (shown store frame.template instruction) outcome ∧
        machine.step =
          ({ machine with frames :=
            { frame with ip := instruction.next } :: below } :
          Machine).settle outcome) := by
  have steps := step_eq frames decodes
  have executes :
      Faultless
        (({ machine with frames :=
          { frame with ip := instruction.next } :: below } :
      Machine).execute instruction) := by
    intro fault faults
    rw [faults] at steps
    exact faultless fault _ steps
  refine ⟨⟨Listing.operands_eq store frame.template instruction,
    fun other kind same => ?_⟩, fun operands =>
      ⟨Listing.instructionLine_ends store frame.template previous operands, ?_⟩⟩
  · exact Shown.text_injective
      (kind.trans (Listing.kind_shown store frame.template instruction).symm)
        same
  · obtain ⟨outcome, obeys, executed⟩ :=
      execute_obeys store rfl operands executes
    refine ⟨outcome, obeys, ?_⟩
    rw [steps, executed]
    cases outcome <;> rfl

/-- The listing of code that registers a handler shows the destination which the
handler gets. -/
theorem listing_shows_destination_of_handler :
    ∃ (machine : Machine) (frame : Frame) (instruction : Instruction)
      (after : Machine),
      machine.frames = [frame] ∧
      Instruction.decode frame.template.code frame.ip = .ok instruction ∧
      (∀ fault final, machine.step ≠ .failed (.fault fault) final) ∧
      machine.step = .running after ∧
      after.handlers.map (fun handler => (handler.effect, handler.target)) =
        [("e", 261)] ∧
      (∃ front, Listing.instructionLine {} frame.template none instruction =
        front ++ "0 'e' 1 -> 261") ∧
      ∃ outcome,
        Obeys {} machine { frame with ip := instruction.next } [] .setHandler
          (.registration 0 (some "e") 1 261) outcome ∧
        machine.step =
          ({ machine with frames := [{ frame with ip := instruction.next }] } :
          Machine).settle outcome := by
  let template : Template :=
    ⟨"f", 0, 1, #[Opcode.comment.toByte, Opcode.setHandler.toByte, 0, 1, 0], [],
      ["e"], {}, [], [], []⟩
  let frame : Frame :=
    ⟨⟨0, template, []⟩, [.closure ⟨1, template, []⟩], [], 1, none⟩
  let machine := { fresh ⟨1, 1⟩ (.collecting "") with frames := [frame] }
  have faultless : ∀ fault final, machine.step ≠ .failed
      (.fault fault) final := by
    rintro fault final ⟨⟩
  obtain ⟨_, does⟩ := @listing_shows_what_steps_do machine frame []
    ⟨1, .setHandler, [0, 1, 0]⟩ {} none rfl rfl faultless
  obtain ⟨ends, outcome, obeys, steps⟩ := does (by decide)
  exact ⟨machine, frame, ⟨1, .setHandler, [0, 1, 0]⟩, _, rfl, rfl, faultless,
    rfl, rfl, ends, outcome, obeys, steps⟩

end Execute

end Machine

end EffectScript
