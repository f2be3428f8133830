import Unchain.Binding.Table
import Unchain.Entries
import Unchain.Limits

/-!
# The register of names

Which names are in use in a function under conversion, and what the bindings that a conversion
writes to are called. A name that is in use stays in use: `reserve?` gives a name that was free
and takes it (`reserve?_eq_some_iff`).
-/

namespace Unchain.Naming

open Binding (SymbolId)
open Syntax (NodeId)

/-- A binding that a conversion writes to. -/
inductive Key where
  /-- The parameter of a handler that is written in place. -/
  | parameter (symbol : SymbolId)
  /-- A value that has no binding in the source, by the handler that it goes to. -/
  | minted (handler : NodeId)
  /-- A variable of the function that holds the value of a chain. -/
  | result (symbol : SymbolId)
  deriving DecidableEq, Repr, Inhabited

/-- What a binding is called and how it is written. -/
structure Entry where
  name : String
  /-- How often the binding will still be written. -/
  writesLeft : Nat := 1
  isDeclared : Bool := false
  deriving DecidableEq, Repr, Inhabited

/-- The names in use and the bindings with names. -/
structure Register where
  entries : List (Key × Entry) := []
  taken : List String := []
  deriving DecidableEq, Repr, Inhabited

namespace Register

/-- The entry of a binding. -/
def get? (r : Register) (key : Key) : Option Entry := r.entries.lookup key

/-- What a binding is called. -/
def name? (r : Register) (key : Key) : Option String := (r.get? key).map Entry.name

/-- How many bindings have a name. -/
def size (r : Register) : Nat := r.entries.length

/-- Whether a name is in use. -/
def isTaken (r : Register) (name : String) : Bool := r.taken.contains name

/-- Takes a name that is in use anyway. -/
def pin (r : Register) (name : String) : Register := { r with taken := name :: r.taken }

@[simp] theorem isTaken_pin (r : Register) (name other : String) :
    (r.pin name).isTaken other = (other == name || r.isTaken other) :=
  List.contains_cons

@[simp] theorem name?_pin (r : Register) (name : String) (key : Key) :
    (r.pin name).name? key = r.name? key := rfl

/-- The base name with a number. -/
def numbered (base : String) (n : Nat) : String := base ++ "_" ++ toString n

/-- The base name if it is free, or else with the least number that makes it free. -/
def freeName? (r : Register) (base : String) : Option String :=
  if r.isTaken base then
    ((List.range Limits.nameSuffix).find? fun n => !r.isTaken (numbered base (n + 1))).map
      fun n => numbered base (n + 1)
  else some base

/-- A free name is not in use. -/
theorem isTaken_of_freeName? {r : Register} {base name : String}
    (h : r.freeName? base = some name) : r.isTaken name = false := by
  rw [freeName?] at h
  split at h
  · obtain ⟨n, hn, rfl⟩ := Option.map_eq_some_iff.mp h
    simpa using List.find?_some hn
  · next htaken =>
    obtain rfl : base = name := by simpa using h
    simpa using htaken

/-- Takes a name that is free: the base name, or the base name with the least possible number. -/
def reserve? (r : Register) (base : String) : Option (String × Register) :=
  (r.freeName? base).map fun name => (name, r.pin name)

theorem reserve?_eq_some_iff {r after : Register} {base name : String} :
    r.reserve? base = some (name, after) ↔ r.freeName? base = some name ∧ after = r.pin name := by
  simp only [reserve?, Option.map_eq_some_iff, Prod.mk.injEq]
  constructor
  · rintro ⟨name, h, rfl, rfl⟩
    exact ⟨h, rfl⟩
  · rintro ⟨h, rfl⟩
    exact ⟨name, h, rfl, rfl⟩

/-- Gives a binding a name, to be written once. -/
def insert (r : Register) (key : Key) (name : String) : Register :=
  { r with entries := Entries.put key { name } r.entries }

theorem get?_insert (r : Register) (key other : Key) (name : String) :
    (r.insert key name).get? other = if other = key then some { name } else r.get? other := by
  simp [insert, get?, Entries.lookup_put]

theorem name?_insert (r : Register) (key other : Key) (name : String) :
    (r.insert key name).name? other = if other = key then some name else r.name? other := by
  rw [name?, get?_insert]
  split <;> rfl

/-- Changes the entry of a binding. -/
def modify (r : Register) (key : Key) (f : Entry → Entry) : Register :=
  { r with entries := Entries.change key f r.entries }

theorem get?_modify (r : Register) (key other : Key) (f : Entry → Entry) :
    (r.modify key f).get? other = if other = key then (r.get? key).map f else r.get? other := by
  simp [modify, get?, Entries.lookup_change]

/-- Sets how often a binding will be written, at least once. -/
def seed (r : Register) (key : Key) (writes : Nat) : Register :=
  r.modify key fun e => { e with writesLeft := max writes 1 }

/-- Whether a binding is declared. -/
def isDeclared (r : Register) (key : Key) : Bool := (r.get? key).any Entry.isDeclared

/-- Records that a binding is declared. -/
def declare (r : Register) (key : Key) : Register :=
  r.modify key fun e => { e with isDeclared := true }

/-- Records that a binding was written once. -/
def consume (r : Register) (key : Key) : Register :=
  r.modify key fun e => { e with writesLeft := e.writesLeft - 1 }

/-- How often a binding will still be written. -/
def writesLeft (r : Register) (key : Key) : Nat := ((r.get? key).map Entry.writesLeft).getD 0

end Register

end Unchain.Naming
