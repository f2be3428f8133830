import Unchain.Text.Offset

/-!
# Bytes of a text

What is found at an offset that a reader moved to. An offset that is a cut leaves
the text after it to read on in, and from there the offsets add up (`IsCut.add`,
`IsCut.after_add`). The first byte of a character tells whether the character has
more: a byte below 128 is the whole character (`exists_cons_of_byteAt?`), so who
sees one may step over it (`IsCut.succ`).
-/

namespace Unchain.Text

variable {cs rest : List Char} {c a : Char} {n m : Nat}

/-! ### Cuts -/

@[simp] theorem after_zero (cs : List Char) : after 0 cs = cs := by
  simp [after, dropBytes?]

@[simp] theorem after_append (pre rest : List Char) :
    after (byteLength pre) (pre ++ rest) = rest := by
  simp [after]

@[simp] theorem upTo_append (pre rest : List Char) :
    upTo (byteLength pre) (pre ++ rest) = pre := by
  simp [upTo]

/-- A cut parts the text in two. -/
theorem IsCut.exists_parts (h : IsCut cs n) :
    cs = upTo n cs ++ after n cs ∧ byteLength (upTo n cs) = n := by
  obtain ⟨pre, rest, rfl, rfl⟩ := isCut_iff.mp h
  simp

theorem IsCut.upTo_append_after (h : IsCut cs n) : upTo n cs ++ after n cs = cs :=
  h.exists_parts.1.symm

/-- No cut is past the end. -/
theorem IsCut.le_byteLength (h : IsCut cs n) : n ≤ byteLength cs := by
  obtain ⟨pre, rest, rfl, rfl⟩ := isCut_iff.mp h
  rw [byteLength_append]
  exact Nat.le_add_right _ _

theorem IsCut.byteLength_upTo (h : IsCut cs n) : byteLength (upTo n cs) = n :=
  h.exists_parts.2

theorem after_suffix (n : Nat) (cs : List Char) : after n cs <:+ cs := by
  cases h : dropBytes? n cs with
  | none => simp [after, h]
  | some rest =>
    obtain ⟨pre, rfl, -⟩ := dropBytes?_eq_some_iff.mp h
    simp [after, h]

/-- From a cut on, offsets start anew. -/
theorem IsCut.after_add (h : IsCut cs n) (m : Nat) : after (n + m) cs = after m (after n cs) := by
  obtain ⟨pre, rest, rfl, rfl⟩ := isCut_iff.mp h
  rw [after_append]
  induction pre with
  | nil => simp
  | cons c pre ih =>
    have := c.utf8Size_pos
    obtain ⟨k, hk⟩ : ∃ k, byteLength (c :: pre) + m = k + 1 :=
      ⟨_, (Nat.sub_add_cancel (by rw [byteLength_cons]; omega)).symm⟩
    have hrest : k + 1 - c.utf8Size = byteLength pre + m := by
      rw [byteLength_cons] at hk
      omega
    have ih := ih (isCut_iff.mpr ⟨pre, rest, rfl, rfl⟩)
    rw [after] at ih ⊢
    rw [hk, List.cons_append, dropBytes?, if_pos (by rw [byteLength_cons] at hk; omega), hrest, ih]

theorem IsCut.add (h : IsCut cs n) (hm : IsCut (after n cs) m) : IsCut cs (n + m) := by
  obtain ⟨pre, rest, rfl, rfl⟩ := isCut_iff.mp h
  rw [after_append] at hm
  obtain ⟨pre', rest', rfl, rfl⟩ := isCut_iff.mp hm
  exact isCut_iff.mpr ⟨pre ++ pre', rest', (List.append_assoc ..).symm, (byteLength_append ..).symm⟩

/-- The text up to the sum of two cuts is that of the one and then of the other. -/
theorem IsCut.upTo_add (h : IsCut cs n) (hm : IsCut (after n cs) m) :
    upTo (n + m) cs = upTo n cs ++ upTo m (after n cs) := by
  obtain ⟨pre, rest, rfl, rfl⟩ := isCut_iff.mp h
  rw [after_append] at hm ⊢
  obtain ⟨pre', rest', rfl, rfl⟩ := isCut_iff.mp hm
  rw [upTo_append, upTo_append, ← List.append_assoc, ← byteLength_append, upTo_append]

/-- There is a cut after a character. -/
theorem isCut_utf8Size (c : Char) (rest : List Char) : IsCut (c :: rest) c.utf8Size :=
  isCut_iff.mpr ⟨[c], rest, rfl, rfl⟩

@[simp] theorem after_utf8Size (c : Char) (rest : List Char) :
    after c.utf8Size (c :: rest) = rest :=
  after_append [c] rest

@[simp] theorem upTo_utf8Size (c : Char) (rest : List Char) :
    upTo c.utf8Size (c :: rest) = [c] :=
  upTo_append [c] rest

theorem IsCut.cons (c : Char) (h : IsCut rest n) : IsCut (c :: rest) (c.utf8Size + n) :=
  (isCut_utf8Size c rest).add (by rwa [after_utf8Size])

theorem IsCut.upTo_cons (c : Char) (h : IsCut rest n) :
    upTo (c.utf8Size + n) (c :: rest) = c :: upTo n rest := by
  rw [(isCut_utf8Size c rest).upTo_add (by rwa [after_utf8Size]), upTo_utf8Size, after_utf8Size]
  rfl

theorem isCut_succ_cons_iff :
    IsCut (c :: rest) (n + 1) ↔ c.utf8Size ≤ n + 1 ∧ IsCut rest (n + 1 - c.utf8Size) := by
  rw [IsCut, dropBytes?]
  split
  · next hle => exact (and_iff_right hle).symm
  · next hlt => simp [hlt]

/-- A text that is found at an offset was cut there. -/
theorem isCut_of_upTo_ne_nil (h : upTo n cs ≠ []) : IsCut cs n := by
  cases htake : takeBytes? n cs with
  | none => simp [upTo, htake] at h
  | some pre =>
    obtain ⟨rest, rfl, rfl⟩ := takeBytes?_eq_some_iff.mp htake
    exact isCut_iff.mpr ⟨pre, rest, rfl, rfl⟩

@[simp] theorem slice_zero (cs : List Char) (n : Nat) : slice cs 0 n = upTo n cs := by
  simp [slice, slice?, upTo, dropBytes?]

/-! ### Single bytes -/

@[simp] theorem byteAt?_nil (n : Nat) : byteAt? n [] = none := by
  rw [byteAt?]

/-- From a cut on, bytes are those of the text that is found there. -/
theorem IsCut.byteAt?_add (h : IsCut cs n) (m : Nat) :
    byteAt? (n + m) cs = byteAt? m (after n cs) := by
  obtain ⟨pre, rest, rfl, rfl⟩ := isCut_iff.mp h
  rw [after_append]
  induction pre with
  | nil => simp
  | cons c pre ih =>
    have hrest : c.utf8Size + byteLength pre + m - c.utf8Size = byteLength pre + m := by omega
    rw [byteLength_cons, List.cons_append, byteAt?, if_neg (by omega), hrest,
      ih (isCut_iff.mpr ⟨pre, rest, rfl, rfl⟩)]

theorem IsCut.byteAt? (h : IsCut cs n) : Text.byteAt? n cs = Text.byteAt? 0 (after n cs) :=
  h.byteAt?_add 0

/-- A character of one byte is that byte. -/
theorem byteAt?_zero_cons (hc : c.utf8Size = 1) (rest : List Char) :
    byteAt? 0 (c :: rest) = some c := by
  have hcode : c.toNat < 256 := by
    have : c.val.toNat ≤ 127 := by
      simpa [Char.utf8Size_eq_one_iff, UInt32.le_iff_toNat_le] using hc
    exact Nat.lt_of_le_of_lt this (by decide)
  have hbyte : c.val.toUInt8.toNat = c.toNat := by
    rw [UInt32.toNat_toUInt8]
    exact Nat.mod_eq_of_lt hcode
  rw [byteAt?, if_pos (by omega), String.utf8EncodeChar_eq_singleton hc]
  simp only [List.getElem?_cons_zero, Option.map_some, hbyte, Char.ofNat_toNat]

theorem byteAt?_succ_cons (hc : c.utf8Size = 1) (n : Nat) (rest : List Char) :
    byteAt? (n + 1) (c :: rest) = byteAt? n rest := by
  rw [byteAt?, hc, if_neg (by omega), Nat.add_sub_cancel]

/-- The first byte of a longer character is not below 128. -/
theorem toNat_of_byteAt?_zero (hc : c.utf8Size ≠ 1) (h : byteAt? 0 (c :: rest) = some a) :
    128 ≤ a.toNat := by
  have hlong : ¬ c.val.toNat ≤ 127 := by
    simpa [Char.utf8Size_eq_one_iff, UInt32.le_iff_toNat_le] using hc
  -- Each of the longer forms marks its first byte with the bits 11.
  obtain ⟨byte, hbyte, hfirst⟩ : ∃ byte < 64, (String.utf8EncodeChar c)[0]? =
      some (UInt8.ofNat (byte + 192)) := by
    unfold String.utf8EncodeChar
    dsimp only
    rw [if_neg hlong]
    split
    · exact ⟨_, Nat.lt_of_lt_of_le (Nat.mod_lt _ (by decide)) (by decide), rfl⟩
    split
    · exact ⟨c.val.toNat / 4096 % 16 + 32, by omega, rfl⟩
    · exact ⟨c.val.toNat / 262144 % 8 + 48, by omega, rfl⟩
  have hsize : (UInt8.ofNat (byte + 192)).toNat = byte + 192 := by
    rw [UInt8.toNat_ofNat']
    omega
  have hvalid : (byte + 192).isValidChar := .inl (by omega)
  rw [byteAt?, if_pos c.utf8Size_pos, hfirst, Option.map_some, hsize] at h
  have hcode : (Char.ofNat (byte + 192)).toNat = byte + 192 := by
    rw [Char.ofNat, dif_pos hvalid]
    rfl
  rw [← Option.some.inj h, hcode]
  omega

/-- A byte below 128 is a character of the text. -/
theorem exists_cons_of_byteAt? (h : byteAt? 0 cs = some a) (ha : a.utf8Size = 1) :
    ∃ rest, cs = a :: rest := by
  cases cs with
  | nil => simp at h
  | cons c rest =>
    by_cases hc : c.utf8Size = 1
    · rw [byteAt?_zero_cons hc] at h
      exact ⟨rest, by rw [Option.some.inj h]⟩
    · have hlow : a.toNat ≤ 127 := by
        simpa [Char.utf8Size_eq_one_iff, UInt32.le_iff_toNat_le] using ha
      have := toNat_of_byteAt?_zero hc h
      omega

/-- Who sees such a byte at a cut may step over it. -/
theorem IsCut.succ (h : IsCut cs n) (hbyte : Text.byteAt? n cs = some a) (ha : a.utf8Size = 1) :
    IsCut cs (n + 1) := by
  obtain ⟨rest, hrest⟩ := exists_cons_of_byteAt? (h.byteAt? ▸ hbyte) ha
  exact h.add (by rw [hrest, ← ha]; exact isCut_utf8Size a rest)

end Unchain.Text
