import Unchain.Text.Split

/-!
# Arguments

Reads the arguments of a command. Options have long names after two hyphens, and some have short
ones after one hyphen, which can be joined. A value follows its option as the next argument, after
an equals sign, or right after a short name. After two hyphens alone, everything is a file.

The value of an option is looked at only when the next option or file is met, so a name that
nobody knows is reported before a bad value right before it.
-/

namespace Unchain.CommandLine

/-- What a command asks for. -/
structure Arguments where
  files : List String := []
  position : Option Nat := none
  line : Option Nat := none
  column : Option Nat := none
  function : Option String := none
  config : Option String := none
  indent : Option Nat := none
  all : Bool := false
  list : Bool := false
  json : Bool := false
  write : Bool := false
  noColor : Bool := false
  deriving DecidableEq, Repr, Inhabited

/-- Why arguments are no command. -/
inductive UsageError where
  | helpRequested
  | versionRequested
  /-- There is no option of that name. -/
  | unknownArgument
  /-- Two options exclude each other, or an option is given twice. -/
  | conflict
  /-- Something that must be given is not. -/
  | missingArgument
  /-- An option has no value, or a path is empty. -/
  | missingValue
  /-- A value is no number, or too large a number. -/
  | badValue
  /-- A value is given for an option that takes none. -/
  | unexpectedValue
  deriving DecidableEq, Repr, Inhabited

/-- What to tell the user about arguments that are no command. -/
def UsageError.message : UsageError → String
  | helpRequested => "help was requested"
  | versionRequested => "the version was requested"
  | unknownArgument => "unexpected argument found"
  | conflict => "an argument cannot be used with another one, or not twice"
  | missingArgument => "a required argument was not provided"
  | missingValue => "a value is required for an argument but none was supplied"
  | badValue => "an argument has an invalid value"
  | unexpectedValue => "an unexpected value was found for an argument"

/-- What a command can ask for, in words. -/
def helpText : String :=
  "\n".intercalate [
    "Turn promise .then/.catch chains into async/await",
    "",
    "Usage: unchain [OPTIONS] <FILES>...",
    "",
    "Arguments:",
    "  <FILES>...             Files or directories to convert. Directories are searched",
    "",
    "Options:",
    "      --position <N>     Convert the innermost function containing this byte offset",
    "      --line <N>         Convert the function containing this 1-based line",
    "      --column <N>       1-based column paired with --line",
    "      --function <NAME>  Convert the outermost convertible function with this name",
    "      --all              Convert every function that may be converted (the default)",
    "      --list             Only report the functions that may be converted",
    "      --json             Print JSON instead of text",
    "  -w, --write            Write converted files in place instead of printing them",
    "  -c, --config <PATH>    JSON5 file with the names of promise producers and types",
    "      --indent <N>       Indentation width of converted statements (4 if not given)",
    "      --no-color         Print without colors",
    "  -h, --help             Print help",
    "  -V, --version          Print version"]

/-- Name and version of the program. -/
def versionText : String := "unchain 0.1.0"

/-- Options with a value. -/
inductive ValueOption where
  | position
  | line
  | column
  | function
  | config
  | indent
  deriving DecidableEq, Repr, Inhabited

/-- Options without a value. -/
inductive Switch where
  | all
  | list
  | json
  | write
  | noColor
  deriving DecidableEq, Repr, Inhabited

/-- What the name of an option stands for. -/
inductive NamedOption where
  | value (option : ValueOption)
  | switch (option : Switch)
  | help
  | version
  deriving DecidableEq, Repr, Inhabited

/-- The options by their long names. -/
def longNames : List (String × NamedOption) :=
  [("position", .value .position), ("line", .value .line), ("column", .value .column),
    ("function", .value .function), ("config", .value .config), ("indent", .value .indent),
    ("all", .switch .all), ("list", .switch .list), ("json", .switch .json),
    ("write", .switch .write), ("no-color", .switch .noColor), ("help", .help),
    ("version", .version)]

/-- The options by their short names. -/
def shortNames : List (Char × NamedOption) :=
  [('w', .switch .write), ('c', .value .config), ('h', .help), ('V', .version)]

/-- The number that a text is, with or without a plus sign, if it is below a bound. Where minus
signs are read too, the only number with one that is not below zero is zero. -/
def numberBelow? (bound : Nat) (readsMinus : Bool) (text : String) : Option Nat :=
  let (bound, digits) := match text.toList with
    | '+' :: digits => (bound, digits)
    | '-' :: digits => (if readsMinus then 1 else 0, digits)
    | digits => (bound, digits)
  if digits.isEmpty ∨ !digits.all Char.isDigit then none
  else
    let value := digits.foldl (fun value c => value * 10 + (c.toNat - '0'.toNat)) 0
    if value < bound then some value else none

/-- The number of an option, unless it has one already. -/
def setNumber (bound : Nat) (readsMinus : Bool) (earlier : Option Nat) (text : String) :
    Except UsageError (Option Nat) :=
  if earlier.isSome then .error .conflict
  else
    match numberBelow? bound readsMinus text with
    | some value => .ok (some value)
    | none => .error .badValue

/-- Gives an option its value. -/
def setValue (a : Arguments) (option : ValueOption) (text : String) :
    Except UsageError Arguments := do
  match option with
  | .position => return { a with position := ← setNumber (Nat.pow 2 32) true a.position text }
  | .line => return { a with line := ← setNumber (Nat.pow 2 32) true a.line text }
  | .column => return { a with column := ← setNumber (Nat.pow 2 32) true a.column text }
  | .indent => return { a with indent := ← setNumber (Nat.pow 2 64) false a.indent text }
  | .function => if a.function.isSome then .error .conflict else return { a with function := text }
  | .config =>
    if a.config.isSome then .error .conflict
    else if text = "" then .error .missingValue
    else return { a with config := text }

/-- Turns a switch on. -/
def setSwitch (a : Arguments) (option : Switch) : Except UsageError Arguments :=
  let isOn := match option with
    | .all => a.all
    | .list => a.list
    | .json => a.json
    | .write => a.write
    | .noColor => a.noColor
  if isOn then .error .conflict
  else
    .ok <| match option with
      | .all => { a with all := true }
      | .list => { a with list := true }
      | .json => { a with json := true }
      | .write => { a with write := true }
      | .noColor => { a with noColor := true }

/-- What was given last and not looked at yet. -/
inductive Pending where
  | nothing
  | files (paths : List String)
  | option (option : ValueOption) (value : Option String)
  deriving DecidableEq, Repr, Inhabited

/-- What was read so far. -/
structure Reading where
  arguments : Arguments := {}
  pending : Pending := .nothing
  /-- Two hyphens alone were met. -/
  onlyFiles : Bool := false
  deriving Repr, Inhabited

namespace Reading

/-- Takes in what was given last. -/
def settle (r : Reading) : Except UsageError Reading :=
  match r.pending with
  | .nothing => .ok r
  | .files paths =>
    if paths.contains "" then .error .missingValue
    else
      let files := r.arguments.files ++ paths
      .ok { r with arguments := { r.arguments with files }, pending := .nothing }
  | .option _ none => .error .missingValue
  | .option option (some text) => do
    return { r with arguments := ← setValue r.arguments option text, pending := .nothing }

/-- Reads a file. -/
def addFile (r : Reading) (path : String) : Except UsageError Reading :=
  match r.pending with
  | .files paths => .ok { r with pending := .files (paths ++ [path]) }
  | _ => do return { ← r.settle with pending := .files [path] }

/-- Reads an option with or without a value of its own. -/
def addOption (r : Reading) (option : NamedOption) (value : Option String) :
    Except UsageError Reading := do
  match option, value with
  | .value option, some text =>
    let r ← r.settle
    return { r with arguments := ← setValue r.arguments option text }
  | .value option, none => return { ← r.settle with pending := .option option none }
  | _, some _ => .error .unexpectedValue
  | .switch option, none =>
    let r ← r.settle
    return { r with arguments := ← setSwitch r.arguments option }
  | .help, none =>
    let _ ← r.settle
    .error .helpRequested
  | .version, none =>
    let _ ← r.settle
    .error .versionRequested

/-- Reads an option by its long name. -/
def addLong (r : Reading) (text : List Char) : Except UsageError Reading :=
  let (name, value) := match Text.cut? '=' text with
    | some (name, value) => (name, some (String.ofList value))
    | none => (text, none)
  match longNames.lookup (String.ofList name) with
  | some option => r.addOption option value
  | none => .error .unknownArgument

/-- Reads options by their short names. What follows the name of an option with a value is its
value. -/
def addShort (r : Reading) : List Char → Except UsageError Reading
  | [] => .ok r
  | c :: rest => do
    match shortNames.lookup c with
    | none => .error .unknownArgument
    | some (.value option) =>
      let value := match rest with
        | [] => none
        | '=' :: text => some text
        | text => some text
      r.addOption (.value option) (value.map String.ofList)
    | some option => addShort (← r.addOption option none) rest

/-- Reads an argument. -/
def add (r : Reading) (argument : String) : Except UsageError Reading :=
  if r.onlyFiles then r.addFile argument
  else
    match argument.toList with
    | ['-', '-'] => .ok { r with onlyFiles := true }
    | '-' :: '-' :: text => r.addLong text
    | '-' :: c :: text => r.addShort (c :: text)
    | _ =>
      match r.pending with
      | .option option none => .ok { r with pending := .option option (some argument) }
      | _ => r.addFile argument

end Reading

namespace Arguments

/-- Whether two options are given that exclude each other: only one way to choose a function can
be used. -/
def hasConflict (a : Arguments) : Bool :=
  let chosen := [a.position.isSome, a.line.isSome, a.function.isSome, a.all]
  1 < (chosen.filter id).length

/-- Whether something is missing: a file, or the other half of a line and column. A missing line
is no fault where a line could not be given. -/
def isIncomplete (a : Arguments) : Bool :=
  let hasOtherChoice := a.position.isSome || a.function.isSome || a.all
  a.files.isEmpty || (a.line.isSome && a.column.isNone) ||
    (a.column.isSome && a.line.isNone && !hasOtherChoice)

/-- Reads the arguments of a command. -/
def ofList (arguments : List String) : Except UsageError Arguments := do
  let r ← arguments.foldlM Reading.add {}
  let a := (← r.settle).arguments
  if a.hasConflict then .error .conflict
  else if a.isIncomplete then .error .missingArgument
  else return a

end Arguments

end Unchain.CommandLine
