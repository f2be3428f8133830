import Unchain.Text.Replace

/-!
# Diagnostics

What can be said about a source file: a category, a code and a message at a span. The messages
that the library itself gives are values of `Notice`; `Notice.text` holds their wording.
-/

namespace Unchain

/-- How serious a diagnostic is. -/
inductive Category where
  | warning
  | error
  | suggestion
  | message
  deriving DecidableEq, Repr, Inhabited

/-- The name of a category in reports. -/
def Category.label : Category → String
  | .warning => "warning"
  | .error => "error"
  | .suggestion => "suggestion"
  | .message => "message"

/-- Puts the arguments in place of the holes: the first argument for each hole numbered zero,
then the second for each hole numbered one, and so on. -/
def fillHoles (template : String) (args : List String) : String :=
  args.zipIdx.foldl (fun text (arg, i) => Text.replaceAll ("\x7b" ++ toString i ++ "\x7d") arg text)
    template

/-- The reasons for a diagnostic. -/
inductive Notice where
  /-- A name must stand here. -/
  | identifierExpected
  /-- The token with this spelling must stand here. -/
  | tokenExpected (spelling : String)
  /-- A string has no closing quote on its line. -/
  | unterminatedString
  /-- No token starts with this character. -/
  | invalidCharacter
  /-- No statement starts here. -/
  | statementExpected
  /-- No expression starts here. -/
  | expressionExpected
  /-- A template has no closing backquote. -/
  | unterminatedTemplate
  /-- No type starts here. -/
  | typeExpected
  /-- The function holds a promise chain that can be written with `await`. -/
  | mayBeAsync
  /-- The title of the fix for one function. -/
  | convertToAsync
  /-- The title of the fix for all functions. -/
  | convertAllToAsync
  deriving DecidableEq, Repr, Inhabited

namespace Notice

/-- The number under which a notice is known. -/
def code : Notice → Nat
  | identifierExpected => 1003
  | tokenExpected _ => 1005
  | unterminatedString => 1002
  | invalidCharacter => 1127
  | statementExpected => 1128
  | expressionExpected => 1109
  | unterminatedTemplate => 1160
  | typeExpected => 1110
  | mayBeAsync => 80006
  | convertToAsync => 95065
  | convertAllToAsync => 95066

/-- How serious a notice is. -/
def category : Notice → Category
  | mayBeAsync => .suggestion
  | convertToAsync | convertAllToAsync => .message
  | _ => .error

/-- The wording of a notice. -/
def text : Notice → String
  | identifierExpected => "Identifier expected."
  | tokenExpected spelling => fillHoles "'\x7b0\x7d' expected." [spelling]
  | unterminatedString => "Unterminated string literal."
  | invalidCharacter => "Invalid character."
  | statementExpected => "Declaration or statement expected."
  | expressionExpected => "Expression expected."
  | unterminatedTemplate => "Unterminated template literal."
  | typeExpected => "Type expected."
  | mayBeAsync => "This may be converted to an async function."
  | convertToAsync => "Convert to async function"
  | convertAllToAsync => "Convert all to async functions"

end Notice

/-- A notice at a place of a text, in byte offsets. -/
structure SourceError where
  start : Nat
  length : Nat
  notice : Notice
  deriving DecidableEq, Repr, Inhabited

/-- A diagnostic as a report shows it. -/
structure Diagnostic where
  category : Category
  code : Nat
  file : String
  start : Nat
  length : Nat
  messageText : String
  deriving DecidableEq, Repr, Inhabited

/-- The diagnostic of a notice in a file. -/
def Notice.toDiagnostic (notice : Notice) (file : String) (start length : Nat) : Diagnostic :=
  ⟨notice.category, notice.code, file, start, length, notice.text⟩

/-- The diagnostic of an error in a file. -/
def SourceError.toDiagnostic (e : SourceError) (file : String) : Diagnostic :=
  e.notice.toDiagnostic file e.start e.length

end Unchain
