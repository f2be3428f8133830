import Unchain.Diagnostic
import Unchain.Token.Alphabet
import Unchain.Token.Escape
import Unchain.Token.Kind

/-!
# Lexemes

The token at the start of a text. `Lexeme.ofText` reads one token, trivia included; the other
readers serve the places where the grammar decides what a character means: a regular expression
instead of a division, the next part of a template instead of a closing brace, an operator that
starts with `>` instead of the end of type arguments.

A reader moves an offset in bytes, by the size of a character or by a fixed number of bytes behind
characters that it knows, and reads on from where it moved to. Nothing keeps the offset between
characters but the moves themselves: `Text.after` finds nothing at an offset inside a character.
-/

namespace Unchain.Token

open Text (after byteAt? upTo)

/-- A token at the start of a text. -/
structure Lexeme where
  kind : Kind
  /-- How many bytes the token has. -/
  length : Nat
  /-- Name, cooked text of a string, text of any other literal; empty for the rest. -/
  value : List Char := []
  /-- The text ended before the token did. -/
  unterminated : Bool := false
  /-- Trivia that ends a line. -/
  endsLine : Bool := false
  /-- What is wrong with the token. -/
  error : Option Notice := none
  deriving Repr

/-- Bytes of the characters at the start that satisfy `p`. -/
def bytesWhile (p : Char → Bool) : List Char → Nat
  | [] => 0
  | c :: rest => if p c then c.utf8Size + bytesWhile p rest else 0

/-- A lexeme whose value is its text. -/
def Lexeme.verbatim (kind : Kind) (length : Nat) (cs : List Char) : Lexeme :=
  { kind, length, value := upTo length cs }

/-! ## Trivia -/

/-- The rest of a block comment: its bytes, whether it is closed, whether it ends a line. -/
def commentBody : List Char → Nat × Bool × Bool
  | [] => (0, false, false)
  | c :: rest =>
    if c = '*' ∧ byteAt? 1 (c :: rest) = some '/' then (2, true, false)
    else
      let (length, closed, endsLine) := commentBody rest
      (c.utf8Size + length, closed, isLineBreak c || endsLine)

/-- A block comment. -/
def blockComment (cs : List Char) : Lexeme :=
  let (length, closed, endsLine) := commentBody (after 2 cs)
  { kind := .blockComment, length := 2 + length, endsLine
    error := if closed then none else some .statementExpected }

/-- A comment up to the end of its line. -/
def lineComment (cs : List Char) : Lexeme :=
  { kind := .lineComment, length := 2 + bytesWhile (!isLineBreak ·) (after 2 cs) }

/-- A line break; a carriage return and a line feed are one. -/
def newLine (c : Char) (cs : List Char) : Lexeme :=
  { kind := .newLine, endsLine := true
    length := if c = '\r' ∧ byteAt? 1 cs = some '\n' then 2 else c.utf8Size }

/-! ## Numbers -/

/-- Bytes of the digits at the start, and of the separators between them. -/
def digitBytes (isDigit : Char → Bool) : List Char → Nat
  | [] => 0
  | c :: rest => if isDigit c || c = '_' then 1 + digitBytes isDigit rest else 0

/-- Whether a number has digits of this kind after `marker`, the letter that marks its base. -/
def isRadixDigit (marker : Char) (c : Char) : Bool :=
  if marker = 'x' || marker = 'X' then (hexDigit? c).isSome
  else if marker = 'o' || marker = 'O' then '0' ≤ c && c ≤ '7'
  else c = '0' || c = '1'

/-- A letter that marks the base of a number after a leading zero. -/
def isRadixMarker (c : Char) : Bool := ['x', 'X', 'o', 'O', 'b', 'B'].contains c

/-- The end of digits that start at an offset. -/
def digitsEnd (isDigit : Char → Bool) (cs : List Char) (n : Nat) : Nat :=
  n + digitBytes isDigit (after n cs)

/-- The end of a fraction with its point, if there is one at the offset. -/
def fractionEnd (cs : List Char) (n : Nat) : Nat :=
  if byteAt? n cs = some '.' then digitsEnd Char.isDigit cs (n + 1) else n

/-- The end of the sign of an exponent, if there is one at the offset. -/
def signEnd (cs : List Char) (n : Nat) : Nat :=
  if byteAt? n cs = some '+' ∨ byteAt? n cs = some '-' then n + 1 else n

/-- The end of an exponent, if there is one at the offset: a letter, a sign if there is one, and at
least one digit. -/
def exponentEnd (cs : List Char) (n : Nat) : Nat :=
  if byteAt? n cs = some 'e' ∨ byteAt? n cs = some 'E' then
    let digits := signEnd cs (n + 1)
    if (byteAt? digits cs).any Char.isDigit then digitsEnd Char.isDigit cs digits else n
  else n

/-- The end of a number, without the letter that marks a big integer. -/
def numeralEnd (cs : List Char) : Nat :=
  let marker := (byteAt? 1 cs).getD 'x'
  if byteAt? 0 cs = some '0' ∧ (byteAt? 1 cs).any isRadixMarker then
    digitsEnd (isRadixDigit marker) cs 2
  else exponentEnd cs (fractionEnd cs (digitsEnd Char.isDigit cs 0))

/-- A number. -/
def number (cs : List Char) : Lexeme :=
  let stop := numeralEnd cs
  if byteAt? stop cs = some 'n' then .verbatim .bigInt (stop + 1) cs else .verbatim .number stop cs

/-! ## Strings, templates and regular expressions -/

/-- The rest of a quoted literal: how many bytes it has, what they stand for, and whether it is
closed. -/
structure Quoted where
  length : Nat
  value : List Char
  closed : Bool
  deriving DecidableEq, Repr

/-- With `length` bytes in front, which stand for `value`. -/
def Quoted.behind (q : Quoted) (length : Nat) (value : List Char) : Quoted :=
  ⟨length + q.length, value ++ q.value, q.closed⟩

/-- The rest of a string from the offset `skip` on, which is where an escape ended. -/
def stringBody (quote : Char) : Nat → List Char → Quoted
  | _, [] => ⟨0, [], false⟩
  | skip + 1, c :: rest =>
    if c.utf8Size ≤ skip + 1 then stringBody quote (skip + 1 - c.utf8Size) rest
    else ⟨0, [], false⟩
  | 0, c :: rest =>
    if c = quote then ⟨1, [], true⟩
    else if isLineBreak c then ⟨0, [], false⟩
    else if c = '\\' then
      (stringBody quote (escape rest).length rest).behind (1 + (escape rest).length)
        (escape rest).value
    else (stringBody quote 0 rest).behind c.utf8Size [c]

/-- A string. -/
def string (quote : Char) (cs : List Char) : Lexeme :=
  let q := stringBody quote 0 (after 1 cs)
  { kind := .string, length := 1 + q.length, value := q.value, unterminated := !q.closed
    error := if q.closed then none else some .unterminatedString }

/-- How a part of a template ends. -/
inductive TemplateEnd where
  | backquote
  | substitution
  | endOfText
  deriving DecidableEq, Repr

/-- A part of a template: the bytes of its text and how it ends. -/
def templateBody : List Char → Nat × TemplateEnd
  | [] => (0, .endOfText)
  | c :: rest =>
    if c = '`' then (0, .backquote)
    else if c = '$' ∧ byteAt? 1 (c :: rest) = some '{' then (0, .substitution)
    else if c = '\\' then
      match rest with
      | [] => (1, .endOfText)
      | escaped :: rest =>
        let (length, ending) := templateBody rest
        (1 + escaped.utf8Size + length, ending)
    else
      let (length, ending) := templateBody rest
      (c.utf8Size + length, ending)

/-- A part of a template in a text that starts with the character that opens it; `whole` is the kind
of a part that a backquote ends and `part` that of one before a substitution. -/
def templatePart (whole part : Kind) (cs : List Char) : Lexeme :=
  let body := after 1 cs
  match templateBody body with
  | (length, .backquote) => { kind := whole, length := 1 + length + 1, value := upTo length body }
  | (length, .substitution) => { kind := part, length := 1 + length + 2, value := upTo length body }
  | (length, .endOfText) =>
    { kind := whole, length := 1 + length, unterminated := true
      error := some .unterminatedTemplate }

/-- The rest of a regular expression up to its closing slash, and whether it has one. In a class
a slash closes nothing. -/
def regexBody (inClass : Bool) : List Char → Nat × Bool
  | [] => (0, false)
  | c :: rest =>
    if isLineBreak c then (0, false)
    else if c = '\\' then
      match rest with
      | [] => (c.utf8Size, false)
      | escaped :: rest =>
        let (length, closed) := regexBody inClass rest
        (c.utf8Size + escaped.utf8Size + length, closed)
    else if c = '/' && !inClass then (c.utf8Size, true)
    else
      let inClass := if c = '[' then true else if c = ']' then false else inClass
      let (length, closed) := regexBody inClass rest
      (c.utf8Size + length, closed)

/-- A regular expression with its flags, in a text that starts with its slash. -/
def Lexeme.regex (cs : List Char) : Lexeme :=
  let (length, closed) := regexBody false (after 1 cs)
  let flags := bytesWhile isNamePart (after (1 + length) cs)
  { Lexeme.verbatim .regex (1 + length + flags) cs with unterminated := !closed }

/-- The next part of a template, in a text that starts with the brace that closes a
substitution. -/
def Lexeme.templateContinuation (cs : List Char) : Lexeme :=
  templatePart .templateTail .templateMiddle cs

/-! ## Names and punctuation -/

/-- A name or a keyword. -/
def word (cs : List Char) : Lexeme :=
  let length := bytesWhile isNamePart cs
  let text := String.ofList (upTo length cs)
  .verbatim ((Kind.keyword? text).getD .identifier) length cs

/-- A name after a number sign. -/
def privateName (cs : List Char) : Lexeme :=
  .verbatim .privateIdentifier (1 + bytesWhile isNamePart (after 1 cs)) cs

/-- Punctuation that starts with `c`, by the two bytes after it: its kind and its bytes. A `>` is
always a token of its own; the slash, which may start a comment, is none of these. -/
def punctuator? (c : Char) (next next2 : Option Char) : Option (Kind × Nat) :=
  match c with
  | '{' => some (.openBrace, 1)
  | '}' => some (.closeBrace, 1)
  | '(' => some (.openParen, 1)
  | ')' => some (.closeParen, 1)
  | '[' => some (.openBracket, 1)
  | ']' => some (.closeBracket, 1)
  | ';' => some (.semicolon, 1)
  | ',' => some (.comma, 1)
  | ':' => some (.colon, 1)
  | '~' => some (.tilde, 1)
  | '@' => some (.atSign, 1)
  | '>' => some (.greaterThan, 1)
  | '.' =>
    match next, next2 with
    | some '.', some '.' => some (.ellipsis, 3)
    | _, _ => some (.dot, 1)
  | '?' =>
    match next, next2 with
    -- Before a digit the point belongs to a number.
    | some '.', d => if d.any Char.isDigit then some (.question, 1) else some (.questionDot, 2)
    | some '?', some '=' => some (.questionQuestionEquals, 3)
    | some '?', _ => some (.questionQuestion, 2)
    | _, _ => some (.question, 1)
  | '<' =>
    match next, next2 with
    | some '<', some '=' => some (.shiftLeftEquals, 3)
    | some '<', _ => some (.shiftLeft, 2)
    | some '=', _ => some (.lessEquals, 2)
    | _, _ => some (.lessThan, 1)
  | '=' =>
    match next, next2 with
    | some '=', some '=' => some (.strictEquals, 3)
    | some '=', _ => some (.equalsEquals, 2)
    | some '>', _ => some (.arrow, 2)
    | _, _ => some (.equals, 1)
  | '!' =>
    match next, next2 with
    | some '=', some '=' => some (.strictNotEquals, 3)
    | some '=', _ => some (.notEquals, 2)
    | _, _ => some (.exclamation, 1)
  | '+' =>
    match next with
    | some '+' => some (.plusPlus, 2)
    | some '=' => some (.plusEquals, 2)
    | _ => some (.plus, 1)
  | '-' =>
    match next with
    | some '-' => some (.minusMinus, 2)
    | some '=' => some (.minusEquals, 2)
    | _ => some (.minus, 1)
  | '*' =>
    match next, next2 with
    | some '*', some '=' => some (.powerEquals, 3)
    | some '*', _ => some (.power, 2)
    | some '=', _ => some (.asteriskEquals, 2)
    | _, _ => some (.asterisk, 1)
  | '%' =>
    match next with
    | some '=' => some (.percentEquals, 2)
    | _ => some (.percent, 1)
  | '&' =>
    match next, next2 with
    | some '&', some '=' => some (.andAndEquals, 3)
    | some '&', _ => some (.andAnd, 2)
    | some '=', _ => some (.ampersandEquals, 2)
    | _, _ => some (.ampersand, 1)
  | '|' =>
    match next, next2 with
    | some '|', some '=' => some (.orOrEquals, 3)
    | some '|', _ => some (.orOr, 2)
    | some '=', _ => some (.barEquals, 2)
    | _, _ => some (.bar, 1)
  | '^' =>
    match next with
    | some '=' => some (.caretEquals, 2)
    | _ => some (.caret, 1)
  | _ => none

/-- The longer operator that a `>` is the start of, by the three bytes after it: its kind and how
many of them belong to it. -/
def greaterOperator? (next next2 next3 : Option Char) : Option (Kind × Nat) :=
  match next, next2, next3 with
  | some '>', some '>', some '=' => some (.shiftRightUnsignedEquals, 3)
  | some '>', some '>', _ => some (.shiftRightUnsigned, 2)
  | some '>', some '=', _ => some (.shiftRightEquals, 2)
  | some '>', _, _ => some (.shiftRight, 1)
  | some '=', _, _ => some (.greaterEquals, 1)
  | _, _, _ => none

/-- The operator that a `>` makes with the text after it. -/
def joined? (rest : List Char) : Option (Kind × Nat) :=
  greaterOperator? (byteAt? 0 rest) (byteAt? 1 rest) (byteAt? 2 rest)

/-! ## Any token -/

/-- A slash, in the text that it starts: a comment or a sign. -/
def slash (cs : List Char) : Lexeme :=
  match byteAt? 1 cs with
  | some '/' => lineComment cs
  | some '*' => blockComment cs
  | some '=' => { kind := .slashEquals, length := 2 }
  | _ => { kind := .slash, length := 1 }

/-- A token that starts with `c` and is neither punctuation nor trivia. -/
def wordOrLiteral (c : Char) (cs : List Char) : Lexeme :=
  if c = '"' ∨ c = '\x27' then string c cs
  else if c = '`' then templatePart .template .templateHead cs
  else if c = '#' then
    if (after 1 cs).head?.any isNameStart then privateName cs
    else { kind := .unknown, length := 1, error := some .invalidCharacter }
  else if c.isDigit then number cs
  else if isNameStart c then word cs
  else { kind := .unknown, length := c.utf8Size, error := some .invalidCharacter }

/-- A token that starts with `c` and is no trivia. -/
def significant (c : Char) (cs : List Char) : Lexeme :=
  if c = '.' ∧ (byteAt? 1 cs).any Char.isDigit then number cs
  else
    match punctuator? c (byteAt? 1 cs) (byteAt? 2 cs) with
    | some (kind, length) => { kind, length }
    | none => wordOrLiteral c cs

/-- The token at the start of a text. -/
def Lexeme.ofText (cs : List Char) : Lexeme :=
  match cs with
  | [] => { kind := .endOfFile, length := 0 }
  | c :: _ =>
    if isLineBreak c then newLine c cs
    else if isInlineBlank c then { kind := .whiteSpace, length := bytesWhile isInlineBlank cs }
    else if c = '/' then slash cs
    else significant c cs

end Unchain.Token
