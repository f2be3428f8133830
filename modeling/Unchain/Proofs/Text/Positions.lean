import Mathlib.Data.List.Basic
import Mathlib.Data.List.TakeWhile
import Unchain.Proofs.Text.Lines

/-!
# Offsets and positions

The column of an offset is the width of the line's text before it, and the
offset of a column is found by going along the line's text. On each line the two
are inverse up to columns inside a character or past the end of the line, which
stand for the last offset before them (`offset?_inverts_position`).
-/

namespace Unchain.Text

/-! ### Widths -/

theorem unitLength_cons (c : Char) (cs : List Char) :
    unitLength (c :: cs) = unitLength [c] + unitLength cs := unitLength_append [c] cs

theorem unitLength_singleton_pos (c : Char) : 0 < unitLength [c] := by
  simp only [unitLength]
  split <;> omega

theorem unitLength_le_of_start {as bs : List Char} (h : as <+: bs) :
    unitLength as ≤ unitLength bs := by
  obtain ⟨rest, rfl⟩ := h
  rw [unitLength_append]
  exact Nat.le_add_right _ _

namespace LineMap

/-- A start of a line is found again by its width. -/
theorem bytesUpTo_unitLength {pre line : List Char} (h : pre <+: line) :
    bytesUpTo (unitLength pre) line = byteLength pre := by
  induction pre generalizing line with
  | nil =>
    cases line with
    | nil => rfl
    | cons c line =>
      have := unitLength_singleton_pos c
      rw [bytesUpTo, if_neg (by simp only [unitLength_nil]; omega), byteLength_nil]
  | cons c pre ih =>
    obtain ⟨rest, rfl⟩ := h
    have hwidth : unitLength [c] ≤ unitLength (c :: pre) :=
      unitLength_le_of_start ⟨pre, rfl⟩
    have hleft : unitLength (c :: pre) - unitLength [c] = unitLength pre := by
      rw [unitLength_cons c pre, Nat.add_sub_cancel_left]
    rw [List.cons_append, bytesUpTo, if_pos hwidth, hleft, ih ⟨rest, rfl⟩, byteLength_cons]

/-- Going along a line up to a column takes the longest start that is not wider. -/
theorem exists_bytesUpTo_eq (column : Nat) (line : List Char) :
    ∃ pre, pre <+: line ∧ bytesUpTo column line = byteLength pre ∧ unitLength pre ≤ column ∧
      ∀ other, other <+: line → unitLength other ≤ column → other <+: pre := by
  induction line generalizing column with
  | nil =>
    exact ⟨[], List.nil_prefix, rfl, Nat.zero_le _, fun other hother _ => hother⟩
  | cons c line ih =>
    by_cases hwidth : unitLength [c] ≤ column
    · obtain ⟨pre, hpre, hbytes, hle, hlongest⟩ := ih (column - unitLength [c])
      refine ⟨c :: pre, (List.prefix_cons_inj c).mpr hpre, ?_, ?_, fun other hother hnarrow => ?_⟩
      · rw [bytesUpTo, if_pos hwidth, hbytes, byteLength_cons]
      · rw [unitLength_cons]
        omega
      · cases other with
        | nil => exact List.nil_prefix
        | cons d other =>
          obtain ⟨rfl, hrest⟩ := List.cons_prefix_cons.mp hother
          rw [unitLength_cons] at hnarrow
          exact (List.prefix_cons_inj d).mpr (hlongest other hrest (by omega))
    · refine ⟨[], List.nil_prefix, by rw [bytesUpTo, if_neg hwidth, byteLength_nil],
        Nat.zero_le _, fun other hother hnarrow => ?_⟩
      cases other with
      | nil => exact List.prefix_refl _
      | cons d other =>
        obtain ⟨rfl, -⟩ := List.cons_prefix_cons.mp hother
        rw [unitLength_cons] at hnarrow
        omega

/-- A column past the end of a line takes all of it. -/
theorem bytesUpTo_eq_byteLength {column : Nat} {line : List Char} (h : unitLength line ≤ column) :
    bytesUpTo column line = byteLength line := by
  obtain ⟨pre, hpre, hbytes, -, hlongest⟩ := exists_bytesUpTo_eq column line
  have hall := hlongest line (List.prefix_refl line) h
  rw [hbytes, hpre.eq_of_length_le hall.length_le]

/-! ### On one line -/

namespace IsLine

variable {text before body ending after pre : List Char} {i : Nat}

theorem lineText_eq (h : IsLine text i before body ending after) :
    (ofText text).lineText i = body := by
  have hslice : slice text (byteLength before) (byteLength before + byteLength (body ++ ending)) =
      body ++ ending := by
    have := slice_append before (body ++ ending) after
    rwa [List.append_assoc, ← h.text_eq] at this
  have hending : ∀ c ∈ ending.reverse, (decide (c = '\n') || decide (c = '\r')) = true := by
    intro c hc
    simpa using h.ends.isBreak (List.mem_reverse.mp hc)
  have hbody : body.reverse.dropWhile (fun c => decide (c = '\n') || decide (c = '\r')) =
      body.reverse := by
    refine List.dropWhile_eq_self_iff.mpr fun hpos => ?_
    simpa using h.plain _ (List.mem_reverse.mp (List.getElem_mem hpos))
  have hstop : ((ofText text).lineStart? (i + 1)).getD (byteLength (ofText text).text) = _ :=
    h.stop_eq
  simp only [lineText, hstop, h.start, Option.getD_some]
  rw [Nat.min_eq_left (Nat.le_add_right _ _)]
  rw [show (ofText text).text = text from rfl, hslice, List.reverse_append,
    List.dropWhile_append_of_pos hending, hbody, List.reverse_reverse]

/-- The position of a cut of a line: the width of what is before the cut is its column. -/
theorem position_eq (h : IsLine text i before body ending after) (hpre : pre <+: body ++ ending)
    (hne : ending ≠ [] → pre ≠ body ++ ending) :
    (ofText text).position (byteLength (before ++ pre)) = ⟨i, unitLength pre⟩ := by
  obtain ⟨rest, hrest⟩ := hpre
  have htext : text = before ++ (pre ++ (rest ++ after)) := by
    rw [h.text_eq, ← List.append_assoc body, ← hrest, List.append_assoc]
  have hline : (ofText text).lineAt (byteLength (before ++ pre)) = i := by
    refine h.lineAt_eq (by simp) fun hending => ?_
    have hpos : rest ≠ [] := by
      rintro rfl
      exact hne hending (by rw [← hrest, List.append_nil])
    have := byteLength_eq_zero_iff.not.mpr hpos
    simp only [← hrest, byteLength_append]
    omega
  have hsize : min (byteLength (before ++ pre)) (byteLength (ofText text).text) =
      byteLength before + byteLength pre := by
    rw [byteLength_append]
    refine Nat.min_eq_left ?_
    change _ ≤ byteLength text
    simp only [htext, byteLength_append]
    omega
  have hslice := slice_append before pre (rest ++ after)
  rw [← htext] at hslice
  simp only [position, hline, h.start, Option.getD_some, hsize]
  rw [Nat.min_eq_left (Nat.le_add_right _ _), show (ofText text).text = text from rfl, hslice]

/-- No start of a line's text is past the line's ending. -/
theorem position_body (h : IsLine text i before body ending after) (hpre : pre <+: body) :
    (ofText text).position (byteLength (before ++ pre)) = ⟨i, unitLength pre⟩ := by
  refine h.position_eq (hpre.trans (List.prefix_append body ending)) fun hending heq => ?_
  have hlength := hpre.length_le
  have := List.length_pos_iff.mpr hending
  rw [heq, List.length_append] at hlength
  omega

theorem offset?_eq (h : IsLine text i before body ending after) (column : Nat) :
    (ofText text).offset? ⟨i, column⟩ = some (byteLength before + bytesUpTo column body) := by
  simp only [offset?, h.start, Option.map_some, h.lineText_eq]

/-- A cut of a line that splits no ending lies in the line's text or at its end. -/
theorem prefix_body (h : IsLine text i before body ending after) (hpre : pre <+: body ++ ending)
    (hne : ending ≠ [] → pre ≠ body ++ ending)
    (hsplit : ¬ SplitsBreak text (byteLength (before ++ pre))) : pre <+: body := by
  rcases List.prefix_or_prefix_of_prefix hpre (List.prefix_append body ending) with
    hbody | ⟨mid, rfl⟩
  · exact hbody
  have hmid : mid <+: ending := (List.prefix_append_right_inj body).mp hpre
  have hpart : ending ≠ [] → mid ≠ ending := fun hending heq => hne hending (heq ▸ rfl)
  suffices hnil : mid = [] by simp only [hnil, List.append_nil, List.prefix_refl]
  cases mid with
  | nil => rfl
  | cons c mid =>
    have hends := h.ends
    cases hends with
    | endOfText => cases List.prefix_nil.mp hmid
    | lineFeed | carriageReturn =>
      obtain ⟨rfl, hrest⟩ := List.cons_prefix_cons.mp hmid
      obtain rfl := List.prefix_nil.mp hrest
      exact absurd rfl (hpart (List.cons_ne_nil _ _))
    | returnAndFeed =>
      obtain ⟨rfl, hrest⟩ := List.cons_prefix_cons.mp hmid
      cases mid with
      | nil => exact absurd ⟨before ++ body, after, by simp [h.text_eq], by simp; rfl⟩ hsplit
      | cons d mid =>
        obtain ⟨rfl, hmore⟩ := List.cons_prefix_cons.mp hrest
        obtain rfl := List.prefix_nil.mp hmore
        exact absurd rfl (hpart (List.cons_ne_nil _ _))

/-- What is before a line and its text are determined by its number. -/
theorem unique {before' body' ending' after' : List Char}
    (h : IsLine text i before body ending after) (h' : IsLine text i before' body' ending' after') :
    before = before' ∧ body = body' := by
  refine ⟨?_, h.lineText_eq.symm.trans h'.lineText_eq⟩
  have hlength : byteLength before = byteLength before' :=
    Option.some.inj (h.start.symm.trans h'.start)
  exact eq_of_byteLength_eq ⟨_, h.text_eq.symm⟩ ⟨_, h'.text_eq.symm⟩ hlength

/-- No cut in the text of a line or at its end splits an ending. -/
theorem not_splitsBreak (h : IsLine text i before body ending after) (hpre : pre <+: body) :
    ¬ SplitsBreak text (byteLength (before ++ pre)) := by
  intro hsplit
  rcases List.eq_nil_or_concat' pre with rfl | ⟨start, c, rfl⟩
  · rw [List.append_nil] at hsplit
    exact h.apart hsplit
  · obtain ⟨rest, rfl⟩ := hpre
    have htext : text = (before ++ (start ++ [c])) ++ (rest ++ (ending ++ after)) := by
      simp [h.text_eq]
    rw [htext, splitsBreak_append_iff, ← List.append_assoc, List.getLast?_concat] at hsplit
    have hc : c ∈ start ++ [c] ++ rest := by simp
    exact (h.plain c hc).2 (Option.some.inj hsplit.1)

end IsLine

/-- A cut of a text that splits no ending, by the line on which it is. -/
theorem exists_prefix_of_isCut {text : List Char} {offset : Nat} (h : IsCut text offset)
    (hsplit : ¬ SplitsBreak text offset) :
    ∃ i before body ending after pre, IsLine text i before body ending after ∧ pre <+: body ∧
      offset = byteLength (before ++ pre) := by
  obtain ⟨i, before, body, ending, after, pre, hline, hpre, hne, rfl⟩ := exists_isLine_of_isCut h
  exact ⟨i, before, body, ending, after, pre, hline, hline.prefix_body hpre hne hsplit, rfl⟩

/-! ### There and back -/

theorem offset?_position {text : List Char} {offset : Nat} (h : IsCut text offset)
    (hsplit : ¬ SplitsBreak text offset) :
    (ofText text).offset? ((ofText text).position offset) = some offset := by
  obtain ⟨i, before, body, ending, after, pre, hline, hpre, rfl⟩ := exists_prefix_of_isCut h hsplit
  rw [hline.position_body hpre, hline.offset?_eq, bytesUpTo_unitLength hpre, byteLength_append]

theorem ofLineColumn?_lineColumn (m : LineMap) (offset : Nat) :
    m.ofLineColumn? (m.lineColumn offset).1 (m.lineColumn offset).2 =
      m.offset? (m.position offset) := by
  simp [ofLineColumn?, lineColumn]

/-- The offset of a position is on its line. Of the offsets there it is the last one whose column
is not past that of the position. -/
theorem exists_offset?_eq {text : List Char} {line : Nat} (h : line < (ofText text).lineCount)
    (column : Nat) :
    ∃ offset, (ofText text).offset? ⟨line, column⟩ = some offset ∧ IsCut text offset ∧
      ¬ SplitsBreak text offset ∧ ((ofText text).position offset).line = line ∧
      ((ofText text).position offset).column ≤ column ∧
      ∀ other, IsCut text other → ¬ SplitsBreak text other →
        ((ofText text).position other).line = line →
        ((ofText text).position other).column ≤ column →
        other ≤ offset ∧
          ((ofText text).position other).column ≤ ((ofText text).position offset).column := by
  obtain ⟨before, body, ending, after, hline⟩ := exists_isLine h
  obtain ⟨pre, hpre, hbytes, hle, hlongest⟩ := exists_bytesUpTo_eq column body
  refine ⟨byteLength (before ++ pre), ?_, ?_, ?_, ?_, ?_, fun other hcut hsplit hsame hnarrow => ?_⟩
  · rw [hline.offset?_eq, hbytes, byteLength_append]
  · obtain ⟨rest, rfl⟩ := hpre
    exact isCut_iff.mpr ⟨before ++ pre, rest ++ (ending ++ after), by simp [hline.text_eq], rfl⟩
  · exact hline.not_splitsBreak hpre
  · rw [hline.position_body hpre]
  · rw [hline.position_body hpre]
    exact hle
  · obtain ⟨i, before', body', ending', after', pre', hline', hpre', rfl⟩ :=
      exists_prefix_of_isCut hcut hsplit
    rw [hline'.position_body hpre'] at hsame hnarrow ⊢
    rw [hline.position_body hpre]
    obtain rfl : i = line := hsame
    obtain ⟨rfl, rfl⟩ := hline.unique hline'
    have hstart := hlongest pre' hpre' hnarrow
    refine ⟨?_, unitLength_le_of_start hstart⟩
    rw [byteLength_append, byteLength_append]
    exact Nat.add_le_add_left (byteLength_le_of_start hstart) _

/-- Offsets between characters come back from their positions, unless they split an ending. The
offset of a position is the last one of its line that has no larger column; a column past the end
of the line's text gives the end of it. -/
theorem offset?_inverts_position (text : List Char) :
    (∀ offset, IsCut text offset → ¬ SplitsBreak text offset →
      (ofText text).ofLineColumn? ((ofText text).lineColumn offset).1
          ((ofText text).lineColumn offset).2 = some offset ∧
        (ofText text).offset? ((ofText text).position offset) = some offset) ∧
    ∀ line < (ofText text).lineCount, ∀ column, ∃ offset,
      (ofText text).offset? ⟨line, column⟩ = some offset ∧
      IsCut text offset ∧ ¬ SplitsBreak text offset ∧
      ((ofText text).position offset).line = line ∧
      ((ofText text).position offset).column ≤ column ∧
      (∀ other, IsCut text other → ¬ SplitsBreak text other →
        ((ofText text).position other).line = line →
        ((ofText text).position other).column ≤ column →
        other ≤ offset ∧
          ((ofText text).position other).column ≤ ((ofText text).position offset).column) ∧
      (unitLength ((ofText text).lineText line) ≤ column →
        ∃ start, (ofText text).lineStart? line = some start ∧
          offset = start + byteLength ((ofText text).lineText line)) := by
  refine ⟨fun offset hcut hsplit => ?_, fun line hline column => ?_⟩
  · have hback := offset?_position hcut hsplit
    exact ⟨(ofLineColumn?_lineColumn _ _).trans hback, hback⟩
  · obtain ⟨offset, hoffset, hcut, hsplit, hsame, hle, hlast⟩ := exists_offset?_eq hline column
    refine ⟨offset, hoffset, hcut, hsplit, hsame, hle, hlast, fun hwide => ?_⟩
    obtain ⟨before, body, ending, after, hon⟩ := exists_isLine hline
    rw [hon.lineText_eq] at hwide ⊢
    rw [hon.offset?_eq, bytesUpTo_eq_byteLength hwide] at hoffset
    exact ⟨byteLength before, hon.start, (Option.some.inj hoffset).symm⟩

/-- A text with a line that ends in two characters, and one with a character of two code units in
front of its ending. -/
theorem offset?_inverts_position_sample :
    IsCut "a\r\n😀\n".toList 7 ∧ ¬ SplitsBreak "a\r\n😀\n".toList 7 ∧
      (ofText "a\r\n😀\n".toList).offset? ((ofText "a\r\n😀\n".toList).position 7) = some 7 ∧
      1 < (ofText "a\r\n😀\n".toList).lineCount ∧
      ∃ offset, (ofText "a\r\n😀\n".toList).offset? ⟨1, 1⟩ = some offset ∧
        ((ofText "a\r\n😀\n".toList).position offset).line = 1 ∧
        ((ofText "a\r\n😀\n".toList).position offset).column ≤ 1 :=
  have hcut : IsCut "a\r\n😀\n".toList 7 := by decide
  have hsplit : ¬ SplitsBreak "a\r\n😀\n".toList 7 := by decide
  have hline : 1 < (ofText "a\r\n😀\n".toList).lineCount := by decide
  have ⟨offset, hoffset, _, _, hsame, hle, _⟩ := (offset?_inverts_position _).2 1 hline 1
  ⟨hcut, hsplit, ((offset?_inverts_position _).1 7 hcut hsplit).2, hline, offset, hoffset, hsame,
    hle⟩

end LineMap

end Unchain.Text
