import Unchain.Config.Json5
import Unchain.Promise.Names

/-!
# Reading the names of promises

A configuration is an object with the keys `promiseGlobals`, `promiseMembers` and
`promiseTypeNames`, each a list of strings. A key that is missing keeps the usual names, and other
keys are passed over. An array gives the three lists by their order instead.
-/

namespace Unchain.Config

open Json5 (Value)

/-- The string that a value is. -/
def text? : Value → Option String
  | .text parts => (Json5.decode parts).map String.ofList
  | _ => none

/-- The list of strings that a value is. -/
def texts? : Value → Option (List String)
  | .array elements => elements.mapM text?
  | _ => none

/-- The lists that a configuration has given so far. -/
structure Given where
  globals : Option (List String) := none
  members : Option (List String) := none
  types : Option (List String) := none
  deriving DecidableEq, Repr, Inhabited

/-- The names, the usual ones where none are given. -/
def Given.names (g : Given) : Promise.Names :=
  let usual : Promise.Names := {}
  { globals := g.globals.getD usual.globals
    members := g.members.getD usual.members
    types := g.types.getD usual.types }

/-- Takes in one member of a configuration. No list may be given twice, and a value that nobody
reads must be sound all the same. -/
def Given.add? (g : Given) (key : String) (value : Value) : Option Given :=
  let once (earlier : Option (List String)) : Option (Option (List String)) :=
    if earlier.isSome then none else (texts? value).map some
  match key with
  | "promiseGlobals" => (once g.globals).map fun globals => { g with globals }
  | "promiseMembers" => (once g.members).map fun members => { g with members }
  | "promiseTypeNames" => (once g.types).map fun types => { g with types }
  | _ => if value.isSound then some g else none

/-- The names that a value gives. -/
def namesOfValue? : Value → Option Promise.Names
  | .object members => do
    let given ← members.foldlM (fun g (key, value) => do
      Given.add? g (String.ofList (← Json5.decode key)) value) {}
    return given.names
  | .array elements => do
    let given (i : Nat) : Option (Option (List String)) :=
      match elements[i]? with
      | some value => (texts? value).map some
      | none => some none
    let g : Given := { globals := ← given 0, members := ← given 1, types := ← given 2 }
    return g.names
  | _ => none

/-- The names that the text of a configuration gives; none if it is no configuration. -/
def readNames? (text : String) : Option Promise.Names := (Json5.parse? text).bind namesOfValue?

end Unchain.Config
