import Unchain.Text.Alphabet

/-!
# Characters of tokens

The character classes of the lexical grammar. Names take the letters and numerals of every
script; white space is a fixed list that also holds the zero width space and the byte order mark.
-/

namespace Unchain.Token

/-- A character that ends a line. -/
def isLineBreak (c : Char) : Bool :=
  c = '\n' || c = '\r' || c = '\u2028' || c = '\u2029'

/-- White space that stays on its line. -/
def isInlineBlank (c : Char) : Bool :=
  [' ', '\t', '\x0b', '\x0c', '\u00a0', '\ufeff', '\u1680', '\u202f', '\u205f', '\u3000'].contains c
    || (0x2000 ≤ c.toNat && c.toNat ≤ 0x200b)

/-- A character that a name can start with. -/
def isNameStart (c : Char) : Bool :=
  c = '$' || c = '_' || c.isAlpha || (0x80 ≤ c.toNat && Text.isLetter c)

/-- A character that can follow in a name. -/
def isNamePart (c : Char) : Bool :=
  isNameStart c || c.isDigit || c = '\u200c' || c = '\u200d' ||
    (0x80 ≤ c.toNat && (Text.isLetter c || Text.isNumeral c))

/-- Whether the characters are the text of a name. -/
def isNameText : List Char → Bool
  | [] => false
  | c :: rest => isNameStart c && rest.all isNamePart

/-- Whether a string is the text of a name. Keywords are names here. -/
def isName (text : String) : Bool := isNameText text.toList

end Unchain.Token
