import EffectScript.Integer
import EffectScript.Settings

/-!
# Settings documents

A settings document holds one setting per line: a key, an equals sign and a
value. Keys may be bare or quoted; values are integers, which may be written in
several bases and with underscores between their digits, and truth values. Blank
lines and comments may stand anywhere. Nothing else is accepted, and no key may
come twice.
-/

namespace EffectScript.SettingsDocument

/-- A value of a setting. -/
inductive Scalar where
  | int (value : Int64)
  | bool (value : Bool)
deriving DecidableEq

/-- Whether a character may not stand in a line. -/
def isForbidden (character : Char) : Bool :=
  (decide (character.toNat < 0x20) && character ≠ '\t') ||
    character.toNat = 0x7f

/-- Whether a character separates the parts of a line. -/
def isBlank (character : Char) : Bool :=
  character = ' ' || character = '\t'

/-- The text without the blanks at its front. -/
def skipBlanks (text : List Char) : List Char :=
  text.dropWhile isBlank

/-- Splits a text at line feeds; a carriage return before a line feed belongs to
it. -/
def splitLines : List Char → List (List Char)
  | [] => [[]]
  | '\r' :: '\n' :: rest => [] :: splitLines rest
  | '\n' :: rest => [] :: splitLines rest
  | character :: rest =>
      match splitLines rest with
      | line :: lines => (character :: line) :: lines
      | [] => [[character]]

/-! ## Keys -/

/-- Whether a bare key may hold the character. -/
def isBareKeyPart (character : Char) : Bool :=
  character.isAlphanum || character = '_' || character = '-'

/-- The value of a hexadecimal digit. -/
def hexDigit? (character : Char) : Option Nat :=
  if character.isDigit then some (character.toNat - '0'.toNat)
  else if 'a' ≤ character ∧ character ≤ 'f' then
    some (character.toNat - 'a'.toNat + 10)
  else if 'A' ≤ character ∧ character ≤ 'F' then
    some (character.toNat - 'A'.toNat + 10)
  else none

/-- The value of hexadecimal digits. -/
def hexNumber? (digits : List Char) : Option Nat :=
  digits.foldl (fun value digit => do
    return 16 * (← value) + (← hexDigit? digit)) (some 0)

/-- The character with the given number. -/
def character? (number : Nat) : Option Char :=
  if number.isValidChar then some (Char.ofNat number) else none

/-- The character that a letter stands for behind a backslash. -/
def escape? (letter : Char) : Option Char :=
  match letter with
  | 'b' => some '\x08'
  | 't' => some '\t'
  | 'n' => some '\n'
  | 'f' => some '\x0c'
  | 'r' => some '\r'
  | '"' => some '"'
  | '\\' => some '\\'
  | _ => none

/-- How many hexadecimal digits follow a letter behind a backslash. -/
def escapeDigits? (letter : Char) : Option Nat :=
  match letter with
  | 'u' => some 4
  | 'U' => some 8
  | _ => none

/-- Reads a key from behind its opening double quote, in at most `bound`
characters. -/
def quotedKey? : Nat → List Char → Option (List Char × List Char)
  | 0, _ => none
  | _, [] => none
  | bound + 1, character :: rest =>
      if character = '"' then some ([], rest)
      else if character = '\\' then
        match rest with
        | [] => none
        | letter :: afterLetter =>
            match escapeDigits? letter with
            | some count => do
                let digits := afterLetter.take count
                if digits.length < count then none
                else
                  let escaped ← character? (← hexNumber? digits)
                  let (key, after) ← quotedKey? bound (afterLetter.drop count)
                  return (escaped :: key, after)
            | none => do
                let escaped ← escape? letter
                let (key, after) ← quotedKey? bound afterLetter
                return (escaped :: key, after)
      else do
        let (key, after) ← quotedKey? bound rest
        return (character :: key, after)

/-- Reads a key. -/
def key? (text : List Char) : Option (List Char × List Char) :=
  match text with
  | '"' :: rest => quotedKey? text.length rest
  | first :: rest =>
      if first.toNat = 39 then
        let key := rest.takeWhile fun character => character.toNat ≠ 39
        match rest.dropWhile fun character => character.toNat ≠ 39 with
        | _ :: after => some (key, after)
        | [] => none
      else
        let key := text.takeWhile isBareKeyPart
        if key.isEmpty then none else some (key, text.dropWhile isBareKeyPart)
  | [] => none

/-! ## Values -/

/-- The value of a digit in a base. -/
def digit? (base : Nat) (character : Char) : Option Nat :=
  match hexDigit? character with
  | some value => if value < base then some value else none
  | none => none

/-- The value of digits in a base, with single underscores between them. `value`
is that of the digits before and `afterDigit` tells whether a digit came
last. -/
def digits? (base : Nat) (afterDigit : Bool) (value : Nat) :
    List Char → Option Nat
  | [] => if afterDigit then some value else none
  | character :: rest =>
      if character = '_' then if afterDigit then
        digits? base false value rest else none
      else
        match digit? base character with
        | some digit => digits? base true (base * value + digit) rest
        | none => none

/-- A whole number without sign in decimal digits; only zero itself begins with
a zero. -/
def decimal? (text : List Char) : Option Nat :=
  match text with
  | '0' :: _ :: _ => none
  | '_' :: _ => none
  | digits => digits? 10 false 0 digits

/-- A whole number. -/
def integer? (text : List Char) : Option Int :=
  match text with
  | '+' :: digits => (decimal? digits).map Int.ofNat
  | '-' :: digits => (decimal? digits).map fun value => -(Int.ofNat value)
  | '0' :: 'x' :: digits => (digits? 16 false 0 digits).map Int.ofNat
  | '0' :: 'o' :: digits => (digits? 8 false 0 digits).map Int.ofNat
  | '0' :: 'b' :: digits => (digits? 2 false 0 digits).map Int.ofNat
  | digits => (decimal? digits).map Int.ofNat

/-- The value that a word writes; integers are those of 64 bits. -/
def scalar? (word : List Char) : Option Scalar :=
  if word = "true".toList then some (.bool true)
  else if word = "false".toList then some (.bool false)
  else
    match integer? word with
    | some value => (Integer.ofInt? value).map .int
    | none => none

/-! ## Documents -/

/-- Reads a line: nothing, or a key and a value. -/
def line? (line : List Char) : Option (Option (String × Scalar)) :=
  if line.any isForbidden then none
  else
    match skipBlanks line with
    | [] => some none
    | '#' :: _ => some none
    | content => do
        let (key, afterKey) ← key? content
        match skipBlanks afterKey with
        | '=' :: afterEquals =>
            let value := skipBlanks afterEquals
            let isEnd := fun character => isBlank character || character = '#'
            let scalar ← scalar?
              (value.takeWhile fun character => !isEnd character)
            match skipBlanks (value.dropWhile fun character => !isEnd character)
              with
            | [] => return some (String.ofList key, scalar)
            | '#' :: _ => return some (String.ofList key, scalar)
            | _ => none
        | _ => none

/-- What a document has said so far. -/
structure Reading where
  maxFrames : Option Nat := none
  stackCapacity : Option Nat := none
  trace : Option Bool := none

/-- Takes in one setting; its key has to be known and new, its value of the
right type. -/
def Reading.add? (reading : Reading) (key : String) (value : Scalar) :
    Option Reading :=
  match value with
  | .int number =>
      if number.toInt < 0 then none
      else if key = LimitField.maxFrames.key then
        if reading.maxFrames.isSome then none
        else some { reading with maxFrames := some number.toInt.toNat }
      else if key = LimitField.stackCapacity.key then
        if reading.stackCapacity.isSome then none
        else some { reading with stackCapacity := some number.toInt.toNat }
      else none
  | .bool flag =>
      if key = "trace" then
        if reading.trace.isSome then none else
          some { reading with trace := some flag }
      else none

/-- Takes in lines. -/
def Reading.addLines? (reading : Reading) : List (List Char) → Option Reading
  | [] => some reading
  | line :: lines =>
      match line? line with
      | none => none
      | some none => reading.addLines? lines
      | some (some (key, value)) =>
          match reading.add? key value with
          | some added => added.addLines? lines
          | none => none

/-- The settings that a reading gives; what it does not mention keeps its
standard value. -/
def Reading.settings (reading : Reading) : Settings :=
  { limits :=
      { maxFrames := reading.maxFrames.getD Limits.standard.maxFrames
        stackCapacity := reading.stackCapacity.getD
          Limits.standard.stackCapacity }
    trace := reading.trace.getD false }

/-- The text without the mark that may announce its encoding. -/
def skipEncodingMark : List Char → List Char
  | '\ufeff' :: rest => rest
  | text => text

end EffectScript.SettingsDocument

namespace EffectScript

/-- The settings of a document that was read from the given path. -/
def Settings.ofDocument (document path : String) :
    Except SettingsError Settings :=
  let lines := SettingsDocument.splitLines
    (SettingsDocument.skipEncodingMark document.toList)
  match ({} : SettingsDocument.Reading).addLines? lines with
  | some reading => reading.settings.validate
  | none => .error (.malformed path)

end EffectScript
