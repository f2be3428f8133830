/-!
# JSON

Values of JSON and their text on indented lines.
-/

namespace Unchain.Report

/-- A value without fractions and truth values, which no report has. -/
inductive Json where
  | number (value : Nat)
  | text (value : String)
  | array (elements : List Json)
  | object (members : List (String × Json))
  deriving Repr, Inhabited

namespace Json

/-- The digit of a number below sixteen. -/
def hexDigit (n : Nat) : Char :=
  if n < 10 then Char.ofNat ('0'.toNat + n) else Char.ofNat ('a'.toNat + (n - 10))

/-- A character inside quotes. -/
def escape (c : Char) : List Char :=
  match c with
  | '"' => ['\\', '"']
  | '\\' => ['\\', '\\']
  | '\x08' => ['\\', 'b']
  | '\x0c' => ['\\', 'f']
  | '\n' => ['\\', 'n']
  | '\r' => ['\\', 'r']
  | '\t' => ['\\', 't']
  | c =>
    if c.toNat < 0x20 then
      ['\\', 'u', '0', '0', hexDigit (c.toNat / 16), hexDigit (c.toNat % 16)]
    else [c]

/-- A text in quotes. -/
def quote (text : String) : String :=
  "\"" ++ String.ofList (text.toList.flatMap escape) ++ "\""

/-- A line break and the indentation of a level. -/
def lineBreak (level : Nat) : String := "\n" ++ "".pushn ' ' (2 * level)

mutual

/-- The text of a value that stands at a level of indentation. -/
def render (level : Nat) : Json → String
  | .number value => toString value
  | .text value => quote value
  | .array [] => "[]"
  | .array (first :: rest) =>
    "[" ++ lineBreak (level + 1) ++ render (level + 1) first ++ renderElements (level + 1) rest ++
      lineBreak level ++ "]"
  | .object [] => "\x7b\x7d"
  | .object ((name, first) :: rest) =>
    "\x7b" ++ lineBreak (level + 1) ++ quote name ++ ": " ++ render (level + 1) first ++
      renderMembers (level + 1) rest ++ lineBreak level ++ "\x7d"

/-- The texts of the elements after the first. -/
def renderElements (level : Nat) : List Json → String
  | [] => ""
  | e :: rest => "," ++ lineBreak level ++ render level e ++ renderElements level rest

/-- The texts of the members after the first. -/
def renderMembers (level : Nat) : List (String × Json) → String
  | [] => ""
  | (name, e) :: rest =>
    "," ++ lineBreak level ++ quote name ++ ": " ++ render level e ++ renderMembers level rest

end

/-- The text of a value. -/
def pretty (value : Json) : String := render 0 value

end Json

end Unchain.Report
