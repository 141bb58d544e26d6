import EffectScript.Text.Unseen

/-!
# Quoted text

A quoted text stands between double quotes. Quote and backslash are written
behind a backslash, the common controls by a letter, and every other character
without a visible shape by its number in braces; all else stands for itself.
-/

namespace EffectScript.Text

/-- Writes a number in lower-case hexadecimal, without leading zeros. -/
def hexadecimal (number : Nat) : String :=
  String.ofList (Nat.toDigits 16 number)

/-- Writes one character of a quoted text. -/
def quoteCharacter (character : Char) : String :=
  if character = '"' then "\\\""
  else if character = '\\' then "\\\\"
  else if character = '\n' then "\\n"
  else if character = '\r' then "\\r"
  else if character = '\t' then "\\t"
  else if character = '\x00' then "\\0"
  else if isUnseen character then
    "\\u\x7b" ++ hexadecimal character.toNat ++ "\x7d"
  else character.toString

/-- Writes a text between double quotes. -/
def quote (text : String) : String :=
  "\"" ++ String.join (text.toList.map quoteCharacter) ++ "\""

end EffectScript.Text
