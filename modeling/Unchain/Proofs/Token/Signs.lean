import Unchain.Proofs.Token.Position

/-!
# Signs at the start of a text

Scanning finds a sign by its first character and the two bytes after it, case by
case. Of all the signs that the text starts with this is the longest: a sign is
found if the character after it makes no longer one (`foundAhead_mark`). Bytes
that are in no sign are all alike to the cases (`punctuator?_outline`), so the
few that are not can be tried one after another.

Operators that start with `>` are found in the same way behind it (`joined?_mark`).
-/

namespace Unchain.Token

open Text (byteAt?)

/-- Operators that are read as a `>` first. -/
def joinedMarks : List Kind :=
  [.greaterEquals, .shiftRight, .shiftRightUnsigned, .shiftRightEquals, .shiftRightUnsignedEquals]

/-- Signs that are read at once. -/
def wholeMarks : List Kind := marks.filter (· ∉ joinedMarks)

/-- Characters that would make a longer sign of a list out of the sign `k`. -/
def extenders (signs : List Kind) (k : Kind) : List Char :=
  signs.filterMap fun a =>
    if k.spelling.isPrefixOf a.spelling then a.spelling[k.spelling.length]? else none

/-- Characters that can come second in a sign. -/
def joints : List Char := ['.', '?', '<', '=', '>', '+', '-', '*', '&', '|']

/-- Characters that can come third in a sign. -/
def thirds : List Char := ['.', '=']

/-- A byte as far as it matters to signs: one of `among`, a digit, or any other. -/
def outline (among : List Char) (byte : Option Char) : Option Char :=
  if byte ∈ among.map some then byte else if byte.any Char.isDigit then some '0' else none

theorem outline_mem (among : List Char) (byte : Option Char) :
    outline among byte ∈ none :: some '0' :: among.map some := by
  rw [outline]
  split
  · next hmem => exact List.mem_cons_of_mem _ (List.mem_cons_of_mem _ hmem)
  split
  · exact List.mem_cons_of_mem _ List.mem_cons_self
  · exact List.mem_cons_self

theorem eq_of_outline {among : List Char} {byte : Option Char} {a : Char}
    (h : outline among byte = some a) : byte = some a ∨ a = '0' := by
  rw [outline] at h
  split at h
  · exact .inl h
  split at h
  · exact .inr (Option.some.inj h).symm
  · cases h

/-- A second byte that is in no sign might as well be missing. -/
theorem punctuator?_of_notMem_joints (c : Char) {next : Option Char} (next2 : Option Char)
    (h : ∀ a ∈ joints, next ≠ some a) : punctuator? c next next2 = punctuator? c none none := by
  unfold punctuator?
  split
  all_goals first
    | rfl
    | split <;> first
      | rfl
      | exact (h _ (by decide) rfl).elim

theorem punctuator?_outline_third (c : Char) (next next2 : Option Char) {among : List Char}
    (hsubset : thirds ⊆ among) :
    punctuator? c next next2 = punctuator? c next (outline among next2) := by
  rw [outline]
  split
  · rfl
  · next hother =>
    have hpoint : next2 ≠ some '.' := by
      rintro rfl
      exact hother (List.mem_map_of_mem (hsubset (by decide)))
    have hequals : next2 ≠ some '=' := by
      rintro rfl
      exact hother (List.mem_map_of_mem (hsubset (by decide)))
    -- The signs of three bytes end in one of the two; before a digit a `?` stands alone.
    cases hd : next2.any Char.isDigit
    all_goals
      unfold punctuator?
      split
    all_goals first
      | rfl
      | split <;> simp_all

theorem punctuator?_outline (c : Char) (next next2 : Option Char) :
    punctuator? c next next2 = punctuator? c (outline joints next) (outline thirds next2) := by
  by_cases hmem : next ∈ joints.map some
  · rw [show outline joints next = next from if_pos hmem]
    exact punctuator?_outline_third c next next2 (List.Subset.refl _)
  · have hother (byte : Option Char) (hbyte : byte ∉ joints.map some) :
        ∀ a ∈ joints, byte ≠ some a := by
      rintro a ha rfl
      exact hbyte (List.mem_map_of_mem ha)
    have hnext : outline joints next ∉ joints.map some := by
      rw [outline, if_neg hmem]
      split <;> decide
    rw [punctuator?_of_notMem_joints c next2 (hother next hmem),
      punctuator?_of_notMem_joints c _ (hother _ hnext)]

/-- The bytes of a text that starts with `w`, whose next two bytes are these. -/
def ahead (w : List Char) (next next2 : Option Char) : List (Option Char) :=
  w.map some ++ [next, next2]

/-- Punctuation that is found in such a text, which starts with `c`. -/
def foundAhead (c : Char) (w : List Char) (next next2 : Option Char) : Option (Kind × Nat) :=
  punctuator? c (ahead (c :: w) next next2)[1]?.join (ahead (c :: w) next next2)[2]?.join

theorem foundAhead_outline (c : Char) (w : List Char) (next next2 : Option Char) :
    foundAhead c w next next2 = foundAhead c w (outline joints next) (outline thirds next2) := by
  match w with
  | [] => exact punctuator?_outline c next next2
  | [d] => exact punctuator?_outline_third c (some d) next (by decide)
  | _ :: _ :: _ => rfl

/-- Signs that scanning finds as they are spelled. A `?.` may be a question mark before a number,
and a slash may start a comment. -/
def plainMarks : List Kind := wholeMarks.filter (· ∉ [Kind.slash, .slashEquals, .questionDot])

/-- Of the signs that a text starts with the longest is found. -/
theorem foundAhead_mark {k : Kind} (hk : k ∈ plainMarks) {c : Char} {w : List Char}
    (hw : k.spelling = c :: w) {next next2 : Option Char}
    (h : ∀ a ∈ extenders wholeMarks k, next ≠ some a) :
    foundAhead c w next next2 = some (k, k.spelling.length) := by
  have hall : (plainMarks.all fun k => (none :: some '0' :: joints.map some).all fun next =>
      (none :: some '0' :: thirds.map some).all fun next2 =>
        foundAhead (k.spelling.headD ' ') k.spelling.tail next next2 =
            some (k, k.spelling.length) ||
          (extenders wholeMarks k).any (next = some ·)) = true := by decide +kernel
  simp only [List.all_eq_true, Bool.or_eq_true, decide_eq_true_eq, List.any_eq_true] at hall
  have hdigit : ∀ k ∈ plainMarks, '0' ∉ extenders wholeMarks k := by decide
  rw [foundAhead_outline]
  rcases hall k hk _ (outline_mem joints next) _ (outline_mem thirds next2) with
    hfound | ⟨a, ha, heq⟩
  · rwa [hw] at hfound ⊢
  · rcases eq_of_outline heq with heq | rfl
    · exact absurd heq (h a ha)
    · exact absurd ha (hdigit k hk)

/-- The bytes of a text that starts with characters of one byte. -/
theorem byteAt?_append {w rest : List Char} (hw : ∀ a ∈ w, a.utf8Size = 1) {n : Nat}
    (hn : n < w.length + 2) :
    byteAt? n (w ++ rest) = (ahead w (byteAt? 0 rest) (byteAt? 1 rest))[n]?.join := by
  induction w generalizing n with
  | nil =>
    match n with
    | 0 => rfl
    | 1 => rfl
  | cons a w ih =>
    obtain ⟨ha, hw⟩ := List.forall_mem_cons.mp hw
    cases n with
    | zero => exact Text.byteAt?_zero_cons ha _
    | succ n =>
      have hshorter : n < w.length + 2 := by rw [List.length_cons] at hn; omega
      rw [List.cons_append, Text.byteAt?_succ_cons ha, ih hw hshorter]
      rfl

/-- No byte comes next that is none of the next character. -/
theorem byteAt?_ne_of_head? {rest : List Char} {a : Char} (ha : a.utf8Size = 1)
    (h : rest.head? ≠ some a) : byteAt? 0 rest ≠ some a := by
  intro hbyte
  obtain ⟨more, rfl⟩ := Text.exists_cons_of_byteAt? hbyte ha
  exact h rfl

theorem utf8Size_of_mem_extenders {signs : List Kind} (hsigns : signs ⊆ marks) {k : Kind} {a : Char}
    (ha : a ∈ extenders signs k) : a.utf8Size = 1 := by
  obtain ⟨longer, hlonger, ha⟩ := List.mem_filterMap.mp ha
  exact (eq_of_mem_marks longer (hsigns hlonger)).2.1 a
    (List.mem_of_getElem? (Option.ite_none_right_eq_some.mp ha).2)

/-- A sign is found at the start of a text if no character follows that extends it. -/
theorem punctuator?_mark {k : Kind} (hk : k ∈ plainMarks) {c : Char} {w rest : List Char}
    (hw : k.spelling = c :: w) (h : ∀ d, rest.head? = some d → d ∉ extenders wholeMarks k) :
    punctuator? c (byteAt? 1 (c :: w ++ rest)) (byteAt? 2 (c :: w ++ rest)) =
      some (k, k.spelling.length) := by
  have hwhole : wholeMarks ⊆ marks := fun _ h => (List.mem_filter.mp h).1
  have hmem : k ∈ marks := hwhole (List.mem_filter.mp hk).1
  have hone : ∀ a ∈ c :: w, a.utf8Size = 1 := hw ▸ (eq_of_mem_marks k hmem).2.1
  have hlength : (c :: w).length = w.length + 1 := rfl
  rw [byteAt?_append hone (by omega), byteAt?_append hone (by omega)]
  exact foundAhead_mark hk hw fun a ha =>
    byteAt?_ne_of_head? (utf8Size_of_mem_extenders hwhole ha) fun hhead => h a hhead ha

/-- An operator is found behind its `>` if no character follows that extends it. -/
theorem joined?_mark {k : Kind} (hk : k ∈ joinedMarks) {w rest : List Char}
    (hw : k.spelling = '>' :: w) (h : ∀ d, rest.head? = some d → d ∉ extenders joinedMarks k) :
    joined? (w ++ rest) = some (k, w.length) := by
  have hnext (a : Char) (ha : a.utf8Size = 1) (hmem : a ∈ extenders joinedMarks k) :
      byteAt? 0 rest ≠ some a :=
    byteAt?_ne_of_head? ha fun hhead => h a hhead hmem
  have hall : ∀ k ∈ joinedMarks, k ∈ marks ∧ k.spelling.tail ≠ [] := by decide
  obtain ⟨hmem, hne⟩ := hall k hk
  have hone : ∀ a ∈ w, a.utf8Size = 1 := fun a ha =>
    (eq_of_mem_marks k hmem).2.1 a (hw ▸ List.mem_cons_of_mem _ ha)
  rw [hw, List.tail_cons] at hne
  have hlength := List.length_pos_iff.mpr hne
  rw [joined?, byteAt?_append hone (by omega), byteAt?_append hone (by omega),
    byteAt?_append hone (by omega)]
  generalize byteAt? 0 rest = next at hnext
  generalize byteAt? 1 rest = next2
  simp only [joinedMarks, List.mem_cons, List.not_mem_nil, or_false] at hk
  rcases hk with rfl | rfl | rfl | rfl | rfl
  · obtain rfl : ['='] = w := (List.cons.inj hw).2
    rfl
  · obtain rfl : ['>'] = w := (List.cons.inj hw).2
    have hgreater : next ≠ some '>' := hnext _ rfl (by decide)
    have hequals : next ≠ some '=' := hnext _ rfl (by decide)
    change greaterOperator? (some '>') next next2 = some (.shiftRight, 1)
    unfold greaterOperator?
    split <;> simp_all
  · obtain rfl : ['>', '>'] = w := (List.cons.inj hw).2
    have hequals : next ≠ some '=' := hnext _ rfl (by decide)
    change greaterOperator? (some '>') (some '>') next = some (.shiftRightUnsigned, 2)
    unfold greaterOperator?
    split <;> simp_all
  · obtain rfl : ['>', '='] = w := (List.cons.inj hw).2
    rfl
  · obtain rfl : ['>', '>', '='] = w := (List.cons.inj hw).2
    rfl

theorem mem_joinedMarks {rest : List Char} {k : Kind} {n : Nat} (h : joined? rest = some (k, n)) :
    k ∈ joinedMarks := by
  unfold joined? greaterOperator? at h
  split at h
  all_goals cases h
  all_goals decide

end Unchain.Token
