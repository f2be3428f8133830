import Unchain.Text.Offset
import Unchain.Token.Lexeme

/-!
# Scanner

A scanner stands on one token of a text. `scan` steps to the next token, the `rescan` operations
read the current one again in another way, and `save` and `restore` go back to an earlier token.

Errors go into a log that only grows while scanning, so a checkpoint keeps no more of it than its
length. `restore_save` says that going back where nothing happened changes nothing.
-/

namespace Unchain.Token

open Text (after)

/-- Where a scanner stands: the offsets of its token and the text that is found there. -/
structure Cursor where
  /-- The text from the end of the token. -/
  rest : List Char
  /-- The text from the start of the token. -/
  tokenRest : List Char
  /-- Offset of the end of the token. -/
  stop : Nat := 0
  /-- Offset of the end of the token before. -/
  fullStart : Nat := 0
  /-- Offset of the start of the token. -/
  start : Nat := 0
  kind : Kind := .unknown
  /-- A line ended between the token before and this one. -/
  lineBreakBefore : Bool := false
  unterminated : Bool := false
  value : String := ""
  deriving Repr

/-- A scanner of one text. -/
structure Scanner where
  cursor : Cursor
  errors : Array SourceError := #[]
  /-- Step over white space and comments. -/
  skipTrivia : Bool := true
  deriving Repr

/-- A place to come back to. -/
structure Checkpoint where
  cursor : Cursor
  errorCount : Nat
  deriving Repr

namespace Cursor

/-- The text of the token. -/
def text (c : Cursor) : String :=
  String.ofList (Text.slice c.tokenRest 0 (c.stop - c.start))

/-- Makes `l` the token at the start of `cs`, which is the text from offset `start`. -/
def place (c : Cursor) (cs : List Char) (start : Nat) (l : Lexeme) : Cursor :=
  { c with
    rest := after l.length cs
    tokenRest := cs
    start
    stop := start + l.length
    kind := l.kind
    lineBreakBefore := c.lineBreakBefore || l.endsLine
    unterminated := l.unterminated
    value := String.ofList l.value }

/-- Makes the token one of another kind that ends `extra` bytes later. -/
def extend (c : Cursor) (kind : Kind) (extra : Nat) : Cursor :=
  { c with kind, stop := c.stop + extra, rest := after extra c.rest }

end Cursor

namespace Scanner

/-- A scanner before the first token of a text. -/
def ofText (text : List Char) (skipTrivia : Bool) : Scanner :=
  { cursor := { rest := text, tokenRest := text }, skipTrivia }

/-- Makes `l` the token at the start of `cs`, and logs what is wrong with it. -/
def place (s : Scanner) (cs : List Char) (start : Nat) (l : Lexeme) : Scanner :=
  let cursor := s.cursor.place cs start l
  { s with
    cursor
    errors := match l.error with
      | some notice => s.errors.push ⟨start, cursor.stop - start, notice⟩
      | none => s.errors }

/-- Reads the token after the current one; steps over at most as many tokens of trivia as `bound`
has characters. -/
def scanOver (bound : List Char) (s : Scanner) : Scanner :=
  let l := Lexeme.ofText s.cursor.rest
  let next := s.place s.cursor.rest s.cursor.stop l
  match bound with
  | [] => next
  | _ :: bound => if s.skipTrivia && l.kind.isTrivia then scanOver bound next else next

/-- Steps to the next token. -/
def scan (s : Scanner) : Scanner :=
  scanOver s.cursor.rest
    { s with cursor := { s.cursor with fullStart := s.cursor.stop, lineBreakBefore := false } }

/-- Reads the current token as `l`. -/
def rescan (s : Scanner) (l : Lexeme) : Scanner := s.place s.cursor.tokenRest s.cursor.start l

/-- Reads a `>` together with the characters after it that make a longer operator. -/
def rescanGreater (s : Scanner) : Scanner :=
  if s.cursor.kind = .greaterThan then
    match joined? s.cursor.rest with
    | some (kind, extra) => { s with cursor := s.cursor.extend kind extra }
    | none => s
  else s

/-- Reads a slash as the start of a regular expression. -/
def rescanSlash (s : Scanner) : Scanner :=
  if s.cursor.kind = .slash || s.cursor.kind = .slashEquals then
    s.rescan (.regex s.cursor.tokenRest)
  else s

/-- Reads a closing brace as the end of a substitution in a template. -/
def rescanTemplate (s : Scanner) : Scanner :=
  if s.cursor.kind = .closeBrace then s.rescan (.templateContinuation s.cursor.tokenRest) else s

/-- Remembers where the scanner stands. -/
def save (s : Scanner) : Checkpoint := ⟨s.cursor, s.errors.size⟩

/-- Goes back to a checkpoint and forgets the errors found since. -/
def restore (s : Scanner) (c : Checkpoint) : Scanner :=
  { s with cursor := c.cursor, errors := s.errors.take c.errorCount }

@[simp] theorem restore_save (s : Scanner) : s.restore s.save = s := by
  simp [restore, save]

@[simp] theorem place_skipTrivia (s : Scanner) (cs : List Char) (start : Nat) (l : Lexeme) :
    (s.place cs start l).skipTrivia = s.skipTrivia := rfl

theorem scanOver_skipTrivia (bound : List Char) (s : Scanner) :
    (scanOver bound s).skipTrivia = s.skipTrivia := by
  induction bound generalizing s with
  | nil => simp [scanOver]
  | cons c bound ih =>
    rw [scanOver]
    split
    · rw [ih, place_skipTrivia]
    · rw [place_skipTrivia]

@[simp] theorem scan_skipTrivia (s : Scanner) : s.scan.skipTrivia = s.skipTrivia :=
  scanOver_skipTrivia _ _

end Scanner

end Unchain.Token
