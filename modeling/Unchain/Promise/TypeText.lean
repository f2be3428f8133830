import Unchain.Promise.Names
import Unchain.Text.Alphabet

/-!
# Types as text

Types are kept as written, so what a type says about promises is read off its text: it is a
promise type, possibly with arguments and in parentheses, or a function type with such a result.
A union or an array of promises is no promise.
-/

namespace Unchain.Promise

open Text (trimBlanks)

/-- The characters after the bracket that closes `depth` open ones; all kinds of brackets count
alike. -/
def afterBracket : Nat → List Char → Option (List Char)
  | _, [] => none
  | depth, c :: rest =>
    if c = '(' ∨ c = '[' ∨ c = '\x7b' then afterBracket (depth + 1) rest
    else if c = ')' ∨ c = ']' ∨ c = '\x7d' then
      if depth ≤ 1 then some rest else afterBracket (depth - 1) rest
    else afterBracket depth rest

/-- A type without the parentheses around all of it. -/
def stripParentheses (text : List Char) : List Char := go text.length (trimBlanks text)
where
  go : Nat → List Char → List Char
    | 0, text => text
    | fuel + 1, text =>
      match text with
      | '(' :: inner =>
        if afterBracket 0 text = some [] then go fuel (trimBlanks inner.dropLast) else text
      | _ => text

/-- The characters after the `>` that closes `depth` type argument lists. The `>` of an arrow
closes nothing, so the character before is remembered. -/
def afterArguments (previous : Option Char) : Nat → List Char → Option (List Char)
  | _, [] => none
  | depth, c :: rest =>
    if c = '<' then afterArguments (some c) (depth + 1) rest
    else if c = '>' ∧ previous ≠ some '=' then
      if depth ≤ 1 then some rest else afterArguments (some c) (depth - 1) rest
    else afterArguments (some c) depth rest

/-- Whether a type is one of the promise types, with or without arguments. -/
def Names.isPromiseType (names : Names) (text : List Char) : Bool :=
  let text := stripParentheses text
  let name := trimBlanks (text.takeWhile (· ≠ '<'))
  let arguments := text.dropWhile (· ≠ '<')
  names.types.contains (String.ofList name) &&
    (arguments.isEmpty || afterArguments none 0 arguments == some [])

/-- The text after the first arrow outside all brackets. -/
def afterArrow (previous : Option Char) (depth : Int) : List Char → Option (List Char)
  | [] => none
  | c :: rest =>
    if c = '(' ∨ c = '[' ∨ c = '\x7b' ∨ c = '<' then afterArrow (some c) (depth + 1) rest
    else if c = ')' ∨ c = ']' ∨ c = '\x7d' then afterArrow (some c) (depth - 1) rest
    else if c = '>' then
      if previous ≠ some '=' then afterArrow (some c) (depth - 1) rest
      else if depth = 0 then some rest
      else afterArrow (some c) depth rest
    else afterArrow (some c) depth rest

/-- Whether a type is a function type with a promise as its result. -/
def Names.isPromiseFunctionType (names : Names) (text : List Char) : Bool :=
  (afterArrow none 0 (stripParentheses text)).any names.isPromiseType

end Unchain.Promise
