/-!
# Text in columns

Padding, leading zeros and the removal of white space at the end of a line: what
tabular output needs.
-/

namespace EffectScript.Text

/-- The text with blanks in front of it up to the given width. -/
def padLeft (width : Nat) (text : String) : String :=
  String.ofList (List.replicate (width - text.length) ' ') ++ text

/-- The text with blanks after it up to the given width. -/
def padRight (width : Nat) (text : String) : String :=
  text ++ String.ofList (List.replicate (width - text.length) ' ')

/-- The decimal digits of a number with zeros in front of them up to the given
width. -/
def zeroPadded (width number : Nat) : String :=
  String.ofList (List.replicate (width - (toString number).length) '0') ++
    toString number

/-- Whether the character is white space in the sense of the Unicode property of
that name. -/
def isWhiteSpace (character : Char) : Bool :=
  let codePoint := character.toNat
  (decide (0x9 ≤ codePoint) && decide (codePoint ≤ 0xd)) ||
    (decide (0x2000 ≤ codePoint) && decide (codePoint ≤ 0x200a)) ||
    [0x20, 0x85, 0xa0, 0x1680, 0x2028, 0x2029, 0x202f, 0x205f, 0x3000].contains
      codePoint

/-- The text without the white space at its end. -/
def trimEnd (text : String) : String :=
  String.ofList (text.toList.reverse.dropWhile isWhiteSpace).reverse

end EffectScript.Text
