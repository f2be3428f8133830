/-!
# Entries

Pairs of a key and a value, in the order in which the keys were entered. A look-up finds the value
that a key was given last (`lookup_put`), and changing one key leaves the others alone
(`lookup_change`).
-/

namespace Unchain.Entries

variable {κ ν : Type} [BEq κ]

/-- Changes the value of a key, if it has one. -/
def change (key : κ) (f : ν → ν) (entries : List (κ × ν)) : List (κ × ν) :=
  entries.map fun entry => if entry.1 == key then (key, f entry.2) else entry

/-- Gives a key a value, at the end if it has none yet. -/
def put (key : κ) (value : ν) (entries : List (κ × ν)) : List (κ × ν) :=
  if (entries.lookup key).isSome then change key (fun _ => value) entries
  else entries ++ [(key, value)]

variable [LawfulBEq κ]

theorem lookup_change (key other : κ) (f : ν → ν) (entries : List (κ × ν)) :
    (change key f entries).lookup other =
      if other == key then (entries.lookup key).map f else entries.lookup other := by
  induction entries with
  | nil => simp [change]
  | cons entry rest ih =>
    obtain ⟨id, value⟩ := entry
    have hcons : change key f ((id, value) :: rest) =
        (if id == key then (key, f value) else (id, value)) :: change key f rest := rfl
    rw [hcons]
    cases hid : id == key with
    | true =>
      obtain rfl : id = key := by simpa using hid
      cases ho : other == id <;> simp [List.lookup_cons, ho, ih]
    | false =>
      have hkey : (key == id) = false := (BEq.comm).trans hid
      cases ho : other == key with
      | true =>
        obtain rfl : other = key := by simpa using ho
        simp [List.lookup_cons, hkey, ih]
      | false => cases hother : other == id <;> simp [List.lookup_cons, hother, ho, ih]

theorem lookup_put (key other : κ) (value : ν) (entries : List (κ × ν)) :
    (put key value entries).lookup other =
      if other == key then some value else entries.lookup other := by
  rw [put]
  cases hkey : entries.lookup key with
  | some known => simp [lookup_change, hkey]
  | none =>
    cases ho : other == key with
    | true =>
      obtain rfl : other = key := by simpa using ho
      simp [List.lookup_append, hkey]
    | false => simp [List.lookup_append, List.lookup_cons, ho]

end Unchain.Entries
