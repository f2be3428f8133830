/-!
# Offsets

A position in a text is the number of bytes before it in UTF-8. Texts are lists of characters, so
a cut at a byte offset exists only between two characters: `takeBytes?` and `dropBytes?` answer
nothing for an offset inside a character or past the end.

`takeBytes?_eq_some_iff` and `dropBytes?_eq_some_iff` say that the two give the parts of a text that
is cut in two; `slice_append` says the same of the middle of a text that is cut in three. The
offsets of such cuts are the `IsCut` ones.

Who reads a text at an offset sees `after` it: nothing, if the offset is no cut. A single byte can
be read at every offset before the end (`byteAt?`), inside a character too.

Offsets are natural numbers here and 32 bits wide in memory. So texts stay under 4 GiB
(`offsetCount`): past that the offset of a token would be the largest one, and that of a line would
start from zero again.
-/

namespace Unchain.Text

/-- How many offsets there are: they have 32 bits. -/
def offsetCount : Nat := 0x100000000

/-- Bytes of the characters in UTF-8. -/
def byteLength : List Char → Nat
  | [] => 0
  | c :: rest => c.utf8Size + byteLength rest

@[simp] theorem byteLength_nil : byteLength [] = 0 := rfl

@[simp] theorem byteLength_cons (c : Char) (cs : List Char) :
    byteLength (c :: cs) = c.utf8Size + byteLength cs := rfl

@[simp] theorem byteLength_append (as bs : List Char) :
    byteLength (as ++ bs) = byteLength as + byteLength bs := by
  induction as with
  | nil => simp
  | cons c as ih => simp [ih, Nat.add_assoc]

/-- Every character has a byte. -/
theorem length_le_byteLength (cs : List Char) : cs.length ≤ byteLength cs := by
  induction cs with
  | nil => simp
  | cons c cs ih =>
    have := c.utf8Size_pos
    simp only [List.length_cons, byteLength_cons]
    omega

theorem byteLength_eq_zero_iff {cs : List Char} : byteLength cs = 0 ↔ cs = [] := by
  constructor
  · intro h
    have := length_le_byteLength cs
    exact List.length_eq_zero_iff.mp (by omega)
  · rintro rfl
    rfl

theorem byteLength_le_of_start {cs ds : List Char} (h : cs <+: ds) :
    byteLength cs ≤ byteLength ds := by
  obtain ⟨rest, rfl⟩ := h
  rw [byteLength_append]
  exact Nat.le_add_right _ _

theorem byteLength_le_of_end {cs ds : List Char} (h : cs <:+ ds) :
    byteLength cs ≤ byteLength ds := by
  obtain ⟨rest, rfl⟩ := h
  rw [byteLength_append]
  exact Nat.le_add_left _ _

/-- Code units of the characters in UTF-16. -/
def unitLength : List Char → Nat
  | [] => 0
  | c :: rest => (if c.toNat < 0x10000 then 1 else 2) + unitLength rest

@[simp] theorem unitLength_nil : unitLength [] = 0 := rfl

@[simp] theorem unitLength_append (as bs : List Char) :
    unitLength (as ++ bs) = unitLength as + unitLength bs := by
  induction as with
  | nil => simp
  | cons c as ih => simp [unitLength, ih, Nat.add_assoc]

/-- The characters after the first `n` bytes. -/
def dropBytes? : Nat → List Char → Option (List Char)
  | 0, cs => some cs
  | _ + 1, [] => none
  | n + 1, c :: rest => if c.utf8Size ≤ n + 1 then dropBytes? (n + 1 - c.utf8Size) rest else none

/-- The characters that make up the first `n` bytes. -/
def takeBytes? : Nat → List Char → Option (List Char)
  | 0, _ => some []
  | _ + 1, [] => none
  | n + 1, c :: rest =>
    if c.utf8Size ≤ n + 1 then (takeBytes? (n + 1 - c.utf8Size) rest).map (c :: ·) else none

/-- A cut after `pre` leaves what comes after it. -/
@[simp] theorem dropBytes?_append (pre rest : List Char) :
    dropBytes? (byteLength pre) (pre ++ rest) = some rest := by
  induction pre with
  | nil => simp [dropBytes?]
  | cons c pre ih =>
    have := c.utf8Size_pos
    obtain ⟨n, hn⟩ : ∃ n, c.utf8Size + byteLength pre = n + 1 :=
      ⟨_, (Nat.sub_add_cancel (by omega)).symm⟩
    have hrest : n + 1 - c.utf8Size = byteLength pre := by omega
    simp only [byteLength_cons, List.cons_append, hn, dropBytes?, hrest, ih]
    rw [if_pos (by omega)]

/-- A cut after `pre` takes `pre`. -/
@[simp] theorem takeBytes?_append (pre rest : List Char) :
    takeBytes? (byteLength pre) (pre ++ rest) = some pre := by
  induction pre with
  | nil => simp [takeBytes?]
  | cons c pre ih =>
    have := c.utf8Size_pos
    obtain ⟨n, hn⟩ : ∃ n, c.utf8Size + byteLength pre = n + 1 :=
      ⟨_, (Nat.sub_add_cancel (by omega)).symm⟩
    have hrest : n + 1 - c.utf8Size = byteLength pre := by omega
    simp only [byteLength_cons, List.cons_append, hn, takeBytes?, hrest, ih]
    rw [if_pos (by omega)]
    rfl

/-- What is left after a cut is what follows a start of that many bytes. -/
theorem dropBytes?_eq_some_iff {n : Nat} {cs rest : List Char} :
    dropBytes? n cs = some rest ↔ ∃ pre, cs = pre ++ rest ∧ byteLength pre = n := by
  constructor
  · intro h
    fun_induction dropBytes? n cs with
    | case1 cs => exact ⟨[], by simpa using h, rfl⟩
    | case2 => simp at h
    | case3 n c cs hc ih =>
      obtain ⟨pre, hpre, hn⟩ := ih h
      exact ⟨c :: pre, by simp [hpre], by simp only [byteLength_cons]; omega⟩
    | case4 => simp at h
  · rintro ⟨pre, rfl, rfl⟩
    exact dropBytes?_append pre rest

/-- What a cut takes is a start of that many bytes. -/
theorem takeBytes?_eq_some_iff {n : Nat} {cs pre : List Char} :
    takeBytes? n cs = some pre ↔ ∃ rest, cs = pre ++ rest ∧ byteLength pre = n := by
  constructor
  · intro h
    fun_induction takeBytes? n cs generalizing pre with
    | case1 cs =>
      obtain rfl : [] = pre := by simpa using h
      exact ⟨cs, rfl, rfl⟩
    | case2 => simp at h
    | case3 n c cs hc ih =>
      obtain ⟨tail, htail, rfl⟩ := Option.map_eq_some_iff.mp h
      obtain ⟨rest, rfl, hn⟩ := ih htail
      exact ⟨rest, rfl, by simp only [byteLength_cons]; omega⟩
    | case4 => simp at h
  · rintro ⟨rest, rfl, rfl⟩
    exact takeBytes?_append pre rest

/-- Whether an offset is between two characters, or at an end of the text. -/
def IsCut (cs : List Char) (n : Nat) : Prop := (dropBytes? n cs).isSome

instance (cs : List Char) (n : Nat) : Decidable (IsCut cs n) :=
  inferInstanceAs (Decidable ((dropBytes? n cs).isSome = true))

/-- A cut has the bytes of a start of the text before it. -/
theorem isCut_iff {cs : List Char} {n : Nat} :
    IsCut cs n ↔ ∃ pre rest, cs = pre ++ rest ∧ n = byteLength pre := by
  rw [IsCut, Option.isSome_iff_exists]
  constructor
  · rintro ⟨rest, h⟩
    obtain ⟨pre, hcs, hn⟩ := dropBytes?_eq_some_iff.mp h
    exact ⟨pre, rest, hcs, hn.symm⟩
  · rintro ⟨pre, rest, rfl, rfl⟩
    exact ⟨rest, dropBytes?_append pre rest⟩

theorem isCut_iff_takeBytes? {cs : List Char} {n : Nat} :
    IsCut cs n ↔ (takeBytes? n cs).isSome := by
  rw [isCut_iff, Option.isSome_iff_exists]
  constructor
  · rintro ⟨pre, rest, rfl, rfl⟩
    exact ⟨pre, takeBytes?_append pre rest⟩
  · rintro ⟨pre, h⟩
    obtain ⟨rest, hcs, hn⟩ := takeBytes?_eq_some_iff.mp h
    exact ⟨pre, rest, hcs, hn.symm⟩

@[simp] theorem isCut_zero (cs : List Char) : IsCut cs 0 := isCut_iff.mpr ⟨[], cs, rfl, rfl⟩

/-- The characters between two offsets. -/
def slice? (cs : List Char) (start stop : Nat) : Option (List Char) :=
  if start ≤ stop then (dropBytes? start cs).bind (takeBytes? (stop - start)) else none

/-- The text from an offset on; empty where the offset is no cut. -/
def after (n : Nat) (cs : List Char) : List Char := (dropBytes? n cs).getD []

/-- The text up to an offset; empty where the offset is no cut. -/
def upTo (n : Nat) (cs : List Char) : List Char := (takeBytes? n cs).getD []

/-- The byte at an offset, as the character with its code. -/
def byteAt? : Nat → List Char → Option Char
  | _, [] => none
  | n, c :: rest =>
    if n < c.utf8Size then (String.utf8EncodeChar c)[n]?.map fun byte => Char.ofNat byte.toNat
    else byteAt? (n - c.utf8Size) rest

/-- The text between two offsets; empty where the offsets cut no text. -/
def slice (cs : List Char) (start stop : Nat) : List Char :=
  (slice? cs start stop).getD []

/-- The middle of a text that is cut in three. -/
theorem slice_append (pre mid rest : List Char) :
    slice (pre ++ (mid ++ rest)) (byteLength pre) (byteLength pre + byteLength mid) = mid := by
  simp [slice, slice?]

end Unchain.Text
