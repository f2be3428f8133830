import Unchain.Text.Offset

/-!
# Escape sequences

What follows a backslash in a string literal, and the characters that it stands for. A hexadecimal
escape that gives no character stands for its letter alone.
-/

namespace Unchain.Token

/-- The value of a hexadecimal digit. -/
def hexDigit? (c : Char) : Option Nat :=
  if c.isDigit then some (c.toNat - 48)
  else if 'a' ≤ c && c ≤ 'f' then some (c.toNat - 87)
  else if 'A' ≤ c && c ≤ 'F' then some (c.toNat - 55)
  else none

/-- The value of hexadecimal digits that follow `value`. -/
def hexDigits? (value : Nat) : List Char → Option Nat
  | [] => some value
  | c :: rest => (hexDigit? c).bind fun digit => hexDigits? (16 * value + digit) rest

/-- The value of a hexadecimal numeral; a plus sign may stand before its digits. -/
def hexNumeral? : List Char → Option Nat
  | [] => none
  | ['+'] => none
  | '+' :: digits => hexDigits? 0 digits
  | digits => hexDigits? 0 digits

/-- The character with a code point, if there is one. -/
def charOfCode? (code : Nat) : Option Char :=
  if h : code.isValidChar then some (Char.ofNatAux code h) else none

/-- The character that a hexadecimal numeral names. -/
def hexChar? (digits : List Char) : Option Char :=
  (hexNumeral? digits).bind charOfCode?

/-- An escape sequence, or a part of one: how many bytes it has and what it stands for. -/
structure Escape where
  length : Nat
  value : List Char
  deriving DecidableEq, Repr

/-- The digits of a code point behind `letter`; with their braces they have `length` bytes. If they
name no character, they are no part of the escape. -/
def Escape.ofCode (letter : Char) (digits : List Char) (length : Nat) : Escape :=
  match hexChar? digits with
  | some c => ⟨length, [c]⟩
  | none => ⟨0, [letter]⟩

/-- The digits of a code point after the letter `u`, in braces or four of them. -/
def Escape.ofUnicode (rest : List Char) : Escape :=
  if Text.byteAt? 0 rest = some '{' then
    let body := Text.after 1 rest
    let digits := body.takeWhile (· ≠ '}')
    if digits.length < body.length then .ofCode 'u' digits (Text.byteLength digits + 2)
    else .ofCode 'u' [] 0
  else .ofCode 'u' (Text.upTo 4 rest) 4

/-- What of an escape sequence comes after its first character `c`, and what it stands for. -/
def Escape.afterFirst (c : Char) (rest : List Char) : Escape :=
  match c with
  | 'n' => ⟨0, ['\n']⟩
  | 't' => ⟨0, ['\t']⟩
  | 'r' => ⟨0, ['\r']⟩
  | 'b' => ⟨0, ['\x08']⟩
  | 'f' => ⟨0, ['\x0c']⟩
  | 'v' => ⟨0, ['\x0b']⟩
  | '0' => ⟨0, ['\x00']⟩
  | '\r' => if Text.byteAt? 0 rest = some '\n' then ⟨1, []⟩ else ⟨0, []⟩
  | '\n' => ⟨0, []⟩
  | '\u2028' => ⟨0, []⟩
  | '\u2029' => ⟨0, []⟩
  | 'x' => .ofCode 'x' (Text.upTo 2 rest) 2
  | 'u' => .ofUnicode rest
  | c => ⟨0, [c]⟩

/-- The escape sequence at the start of the text, which follows a backslash. -/
def escape : List Char → Escape
  | [] => ⟨0, []⟩
  | c :: rest =>
    let more := Escape.afterFirst c rest
    ⟨c.utf8Size + more.length, more.value⟩

end Unchain.Token
