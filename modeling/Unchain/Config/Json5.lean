import Unchain.Text.Marks

/-!
# JSON5

Reads JSON5 documents: JSON with comments, single quotes, trailing commas, names as keys, and more
ways to write numbers and strings.

A document is first read by its form alone. `Value.isSound` then says whether the numbers are in
range and the surrogate escapes pair up, which a reader asks of the values that it uses.
-/

namespace Unchain.Config.Json5

/-! ## Values -/

/-- A part of a string as written. -/
inductive Part where
  | char (c : Char)
  /-- A code unit given by a four digit escape. -/
  | unit (code : Nat)
  deriving DecidableEq, Repr, Inhabited

/-- A number as written. -/
inductive Number where
  | hex (signed : Bool) (value : Nat)
  | integer (negative : Bool) (value : Nat)
  /-- `mantissa` times ten to the `exponent`. -/
  | decimal (mantissa : Nat) (exponent : Int)
  /-- Infinity, or not a number; it may have a plus sign. -/
  | special (plus : Bool)
  deriving DecidableEq, Repr, Inhabited

/-- A value of a document. -/
inductive Value where
  | null
  | bool (value : Bool)
  | number (value : Number)
  | text (parts : List Part)
  | array (elements : List Value)
  | object (members : List (List Part × Value))
  deriving Repr, Inhabited

/-- The character of a pair of surrogates. The bits above the sixteenth are joined and not added,
so a pair for a character of an even plane gives one of the plane before it. -/
def ofSurrogates (high low : Nat) : Char :=
  Char.ofNat (((high - 0xD800) * 0x400) ||| (0x10000 + (low - 0xDC00)))

/-- The text of a string. A high surrogate must stand right before a low one, and a low one right
after a high one. -/
def decode : List Part → Option (List Char)
  | [] => some []
  | .char c :: rest => (decode rest).map (c :: ·)
  | .unit high :: .unit low :: rest =>
    if 0xD800 ≤ high ∧ high < 0xDC00 then
      if 0xDC00 ≤ low ∧ low < 0xE000 then
        (decode rest).map (ofSurrogates high low :: ·)
      else none
    else if 0xDC00 ≤ high ∧ high < 0xE000 then none
    else (decode (.unit low :: rest)).map (Char.ofNat high :: ·)
  | .unit code :: rest =>
    if 0xD800 ≤ code ∧ code < 0xE000 then none else (decode rest).map (Char.ofNat code :: ·)

/-- Whether a decimal number is below the least number that a double rounds to infinity. -/
def isFinite (mantissa : Nat) (exponent : Int) : Bool :=
  let digits : Int := (Nat.toDigits 10 mantissa).length
  let bound := Nat.pow 2 1024 - Nat.pow 2 970
  if mantissa = 0 then true
  else if digits + exponent ≤ 308 then true
  else if digits + exponent > 310 then false
  else if 0 ≤ exponent then mantissa * Nat.pow 10 exponent.toNat < bound
  else mantissa < bound * Nat.pow 10 (-exponent).toNat

/-- Whether a number is in range: 32 bits without a sign for hexadecimal ones, 64 bits for
integers, a double for the others. A plus sign before a word makes no number. -/
def Number.isSound : Number → Bool
  | hex signed value => !signed && value < Nat.pow 2 32
  | integer negative value => if negative then value ≤ Nat.pow 2 63 else value < Nat.pow 2 63
  | decimal mantissa exponent => isFinite mantissa exponent
  | special plus => !plus

mutual

/-- Whether the strings and numbers of a value can be represented. -/
def Value.isSound : Value → Bool
  | .null | .bool _ => true
  | .number value => value.isSound
  | .text parts => (decode parts).isSome
  | .array elements => areSound elements
  | .object members => areSoundMembers members

/-- Whether all elements can be represented. -/
def areSound : List Value → Bool
  | [] => true
  | v :: rest => v.isSound && areSound rest

/-- Whether all keys and values can be represented. -/
def areSoundMembers : List (List Part × Value) → Bool
  | [] => true
  | (key, v) :: rest => (decode key).isSome && v.isSound && areSoundMembers rest

end

/-! ## Blanks and comments -/

/-- A character that ends a line. -/
def isLineEnd (c : Char) : Bool := c = '\n' || c = '\r' || c = '\u2028' || c = '\u2029'

/-- A character that may stand between tokens: any blank but NEL, and the byte order mark. -/
def isGap (c : Char) : Bool := (Text.isBlank c && c ≠ '\u0085') || c = '\uFEFF'

/-- The characters after the end of a block comment. -/
def afterComment : List Char → Option (List Char)
  | [] => none
  | '*' :: '/' :: rest => some rest
  | _ :: rest => afterComment rest

/-- Drops blanks and comments; a block comment that is never closed stays. -/
def dropGap (cs : List Char) : List Char := go cs.length cs
where
  go : Nat → List Char → List Char
    | 0, cs => cs
    | fuel + 1, cs =>
      match cs with
      | '/' :: '/' :: rest => go fuel (rest.dropWhile (!isLineEnd ·))
      | '/' :: '*' :: rest =>
        match afterComment rest with
        | some rest => go fuel rest
        | none => cs
      | c :: rest => if isGap c then go fuel rest else cs
      | [] => []

/-! ## Strings and names -/

/-- The value of a hexadecimal digit. -/
def hexDigit? (c : Char) : Option Nat :=
  if '0' ≤ c ∧ c ≤ '9' then some (c.toNat - '0'.toNat)
  else if 'a' ≤ c ∧ c ≤ 'f' then some (c.toNat - 'a'.toNat + 10)
  else if 'A' ≤ c ∧ c ≤ 'F' then some (c.toNat - 'A'.toNat + 10)
  else none

/-- The value of hexadecimal digits. -/
def hexValue? (cs : List Char) : Option Nat :=
  cs.foldl (fun value c => do return (← value) * 16 + (← hexDigit? c)) (some 0)

/-- A unit of four hexadecimal digits. -/
def readUnit? (cs : List Char) : Option (Part × List Char) :=
  if (cs.take 4).length < 4 then none
  else (hexValue? (cs.take 4)).map fun code => (.unit code, cs.drop 4)

/-- What an escape stands for, after the backslash. A line break stands for nothing. -/
def readEscape? : List Char → Option (Option Part × List Char)
  | [] => none
  | 'b' :: rest => some (some (.char '\x08'), rest)
  | 'f' :: rest => some (some (.char '\x0c'), rest)
  | 'n' :: rest => some (some (.char '\n'), rest)
  | 'r' :: rest => some (some (.char '\r'), rest)
  | 't' :: rest => some (some (.char '\t'), rest)
  | 'v' :: rest => some (some (.char '\x0b'), rest)
  | '0' :: rest => some (some (.char '\x00'), rest)
  | 'x' :: a :: b :: rest =>
    (hexValue? [a, b]).map fun code => (some (.char (Char.ofNat code)), rest)
  | 'u' :: rest => (readUnit? rest).map fun (part, rest) => (some part, rest)
  | '\r' :: '\n' :: rest => some (none, rest)
  | c :: rest =>
    if c = 'x' ∨ c.isDigit then none
    else if isLineEnd c then some (none, rest)
    else some (some (.char c), rest)

/-- The rest of a string after its opening quote. -/
def readString? (quote : Char) (cs : List Char) : Option (List Part × List Char) :=
  go (cs.length + 1) cs
where
  go : Nat → List Char → Option (List Part × List Char)
    | 0, _ => none
    | fuel + 1, cs =>
      match cs with
      | [] => none
      | '\\' :: rest => do
        let (part, rest) ← readEscape? rest
        let (parts, rest) ← go fuel rest
        return (part.toList ++ parts, rest)
      | c :: rest =>
        if c = quote then some ([], rest)
        else if isLineEnd c then none
        else (go fuel rest).map fun (parts, rest) => (.char c :: parts, rest)

/-- A character that a key without quotes may start with. -/
def isKeyStart (c : Char) : Bool := Text.isPureLetter c || c = '$' || c = '_'

/-- A character that may stand in a key without quotes. -/
def isKeyPart (c : Char) : Bool :=
  isKeyStart c || Text.isMark c || Text.isDecimalDigit c || Text.isConnector c ||
    c = '\u200C' || c = '\u200D'

/-- One character of a key without quotes, possibly as an escape. -/
def readKeyPart? (allowed : Char → Bool) : List Char → Option (Part × List Char)
  | '\\' :: 'u' :: rest => readUnit? rest
  | c :: rest => if allowed c then some (.char c, rest) else none
  | [] => none

/-- The longest run of characters of a key. -/
def readKeyParts : Nat → List Char → List Part × List Char
  | 0, cs => ([], cs)
  | fuel + 1, cs =>
    match readKeyPart? isKeyPart cs with
    | some (part, rest) =>
      let (parts, rest) := readKeyParts fuel rest
      (part :: parts, rest)
    | none => ([], cs)

/-- A key: a name or a string. -/
def readKey? : List Char → Option (List Part × List Char)
  | '"' :: rest => readString? '"' rest
  | '\x27' :: rest => readString? '\x27' rest
  | cs => do
    let (first, rest) ← readKeyPart? isKeyStart cs
    let (parts, rest) := readKeyParts rest.length rest
    return (first :: parts, rest)

/-! ## Numbers -/

/-- The value of decimal digits. -/
def decimalValue (cs : List Char) : Nat :=
  cs.foldl (fun value c => value * 10 + (c.toNat - '0'.toNat)) 0

/-- The exponent of a number, if one stands here. -/
def readExponent : List Char → Option Int × List Char
  | cs@(e :: rest) =>
    if e ≠ 'e' ∧ e ≠ 'E' then (none, cs)
    else
      let negative := rest.head? = some '-'
      let digits := if negative ∨ rest.head? = some '+' then rest.tail else rest
      match digits.takeWhile Char.isDigit with
      | [] => (none, cs)
      | run =>
        let value : Int := decimalValue run
        (some (if negative then -value else value), digits.dropWhile Char.isDigit)
  | [] => (none, [])

/-- The digits before the point: a zero, or digits that do not start with one. -/
def readWhole? : List Char → Option (List Char × List Char)
  | '0' :: rest => some (['0'], rest)
  | cs@(c :: _) =>
    if c.isDigit then some (cs.takeWhile Char.isDigit, cs.dropWhile Char.isDigit) else none
  | [] => none

/-- A decimal number, or an integer if it has neither a point nor an exponent. -/
def readDecimal? (negative : Bool) (cs : List Char) : Option (Number × List Char) :=
  let withFraction (whole rest : List Char) : Number × List Char :=
    let fraction := rest.takeWhile Char.isDigit
    let (exponent, rest) := readExponent (rest.dropWhile Char.isDigit)
    (.decimal (decimalValue (whole ++ fraction)) (exponent.getD 0 - fraction.length), rest)
  match readWhole? cs, cs with
  | some (whole, '.' :: rest), _ => some (withFraction whole rest)
  | some (whole, rest), _ =>
    match readExponent rest with
    | (some exponent, rest) => some (.decimal (decimalValue whole) exponent, rest)
    | (none, rest) => some (.integer negative (decimalValue whole), rest)
  | none, '.' :: rest =>
    if rest.head?.any Char.isDigit then some (withFraction [] rest) else none
  | none, _ => none

/-- The rest of a text after a word. -/
def afterWord? (word : String) (cs : List Char) : Option (List Char) :=
  if word.toList.isPrefixOf cs then some (cs.drop word.length) else none

/-- A hexadecimal number after its first two characters. -/
def readHex? (signed : Bool) (cs : List Char) : Option (Number × List Char) :=
  let digits := cs.takeWhile (hexDigit? · |>.isSome)
  if digits.isEmpty then none
  else (hexValue? digits).map fun value => (.hex signed value, cs.drop digits.length)

/-- A number without its sign. -/
def readUnsigned? (signed negative : Bool) (cs : List Char) : Option (Number × List Char) :=
  let hex := match cs with
    | '0' :: 'x' :: rest | '0' :: 'X' :: rest => readHex? signed rest
    | _ => none
  let word (text : String) : Option (Number × List Char) :=
    (afterWord? text cs).map fun rest => (.special (signed && !negative), rest)
  hex.or <| (readDecimal? negative cs).or <| (word "Infinity").or (word "NaN")

/-- A number. -/
def readNumber? : List Char → Option (Number × List Char)
  | '+' :: rest => readUnsigned? true false rest
  | '-' :: rest => readUnsigned? true true rest
  | cs => readUnsigned? false false cs

/-! ## Documents -/

mutual

/-- A value; blanks before it are passed over. -/
def readValue? : Nat → List Char → Option (Value × List Char)
  | 0, _ => none
  | fuel + 1, cs =>
    match dropGap cs with
    | '[' :: rest =>
      match dropGap rest with
      | ']' :: rest => some (.array [], rest)
      | _ => (readElements? fuel rest).map fun (elements, rest) => (.array elements, rest)
    | '\x7b' :: rest =>
      match dropGap rest with
      | '\x7d' :: rest => some (.object [], rest)
      | _ => (readMembers? fuel rest).map fun (members, rest) => (.object members, rest)
    | '"' :: rest => (readString? '"' rest).map fun (parts, rest) => (.text parts, rest)
    | '\x27' :: rest => (readString? '\x27' rest).map fun (parts, rest) => (.text parts, rest)
    | cs =>
      let word (text : String) (value : Value) : Option (Value × List Char) :=
        (afterWord? text cs).map fun rest => (value, rest)
      (word "null" .null).or <| (word "true" (.bool true)).or <|
        (word "false" (.bool false)).or <|
        (readNumber? cs).map fun (value, rest) => (.number value, rest)

/-- The elements of an array and its closing bracket. -/
def readElements? : Nat → List Char → Option (List Value × List Char)
  | 0, _ => none
  | fuel + 1, cs => do
    let (value, rest) ← readValue? fuel cs
    match dropGap rest with
    | ']' :: rest => some ([value], rest)
    | ',' :: rest =>
      match dropGap rest with
      | ']' :: rest => some ([value], rest)
      | _ => (readElements? fuel rest).map fun (elements, rest) => (value :: elements, rest)
    | _ => none

/-- The members of an object and its closing brace. -/
def readMembers? : Nat → List Char → Option (List (List Part × Value) × List Char)
  | 0, _ => none
  | fuel + 1, cs => do
    let (key, rest) ← readKey? (dropGap cs)
    let ':' :: rest := dropGap rest | none
    let (value, rest) ← readValue? fuel rest
    match dropGap rest with
    | '\x7d' :: rest => some ([(key, value)], rest)
    | ',' :: rest =>
      match dropGap rest with
      | '\x7d' :: rest => some ([(key, value)], rest)
      | _ => (readMembers? fuel rest).map fun (members, rest) => ((key, value) :: members, rest)
    | _ => none

end

/-- The value of a document, which must hold nothing else. -/
def parse? (text : String) : Option Value :=
  let cs := text.toList
  match readValue? (2 * cs.length + 2) cs with
  | some (value, rest) => if (dropGap rest).isEmpty then some value else none
  | none => none

end Unchain.Config.Json5
