import Mathlib.Data.Nat.Find
import Unchain.Text.LineMap

/-!
# Lines of a text

A line is what stands between two line endings: its text, which has no
character that ends a line, and its own ending (`IsLine`). A line map has
exactly the starts of the lines (`exists_isLine`), and every cut of a text is on
one of them, before its ending or, for a line that ends in two characters,
between them (`exists_isLine_of_isCut`).
-/

namespace Unchain.Text

/-- What ends a line, and the text after it: a carriage return and the line feed after it are one
ending. -/
inductive EndsLine : List Char → List Char → Prop where
  | endOfText : EndsLine [] []
  | lineFeed (after : List Char) : EndsLine ['\n'] after
  | returnAndFeed (after : List Char) : EndsLine ['\r', '\n'] after
  | carriageReturn {after : List Char} (h : after.head? ≠ some '\n') : EndsLine ['\r'] after

namespace EndsLine

variable {ending after : List Char}

/-- A line without an ending is the last one. -/
theorem after_eq_nil (h : EndsLine ending after) (hnil : ending = []) : after = [] := by
  cases h with
  | endOfText => rfl
  | _ => cases hnil

theorem isBreak (h : EndsLine ending after) {c : Char} (hc : c ∈ ending) : c = '\n' ∨ c = '\r' := by
  cases h <;> simp_all [or_comm]

/-- An ending takes the line feed after its carriage return. -/
theorem not_split {line : List Char} (h : EndsLine ending after) (hne : ending ≠ []) :
    ¬ ((line ++ ending).getLast? = some '\r' ∧ after.head? = some '\n') := by
  cases h <;> simp_all

end EndsLine

/-- Whether an offset lies between a carriage return and its line feed. -/
def SplitsBreak (text : List Char) (offset : Nat) : Prop :=
  ∃ before after, text = before ++ '\r' :: '\n' :: after ∧ offset = byteLength before + 1

theorem splitsBreak_iff {text : List Char} {offset : Nat} :
    SplitsBreak text offset ↔
      0 < offset ∧ ((dropBytes? (offset - 1) text).any (['\r', '\n'].isPrefixOf ·)) = true := by
  simp only [Option.any_eq_true, List.isPrefixOf_iff_prefix]
  constructor
  · rintro ⟨before, after, htext, rfl⟩
    refine ⟨Nat.succ_pos _, '\r' :: '\n' :: after, ?_, ⟨after, rfl⟩⟩
    exact dropBytes?_eq_some_iff.mpr ⟨before, htext, rfl⟩
  · rintro ⟨hpos, rest, hdrop, after, rfl⟩
    obtain ⟨before, htext, hoffset⟩ := dropBytes?_eq_some_iff.mp hdrop
    exact ⟨before, after, htext, by omega⟩

instance (text : List Char) (offset : Nat) : Decidable (SplitsBreak text offset) :=
  decidable_of_iff _ splitsBreak_iff.symm

/-! ### Cuts of a text -/

/-- The later of two cuts has what is before the earlier one before it. -/
theorem prefix_of_byteLength_le {as bs text : List Char} (ha : as <+: text) (hb : bs <+: text)
    (h : byteLength as ≤ byteLength bs) : as <+: bs := by
  rcases List.prefix_or_prefix_of_prefix ha hb with hab | hba
  · exact hab
  · obtain ⟨rest, rfl⟩ := hba
    have hnil : rest = [] := byteLength_eq_zero_iff.mp (by rw [byteLength_append] at h; omega)
    simp only [hnil, List.append_nil, List.prefix_refl]

theorem eq_of_byteLength_eq {as bs text : List Char} (ha : as <+: text) (hb : bs <+: text)
    (h : byteLength as = byteLength bs) : as = bs := by
  have hab := prefix_of_byteLength_le ha hb (Nat.le_of_eq h)
  have hba := prefix_of_byteLength_le hb ha (Nat.le_of_eq h.symm)
  exact hab.eq_of_length_le hba.length_le

/-- A cut splits an ending if a carriage return is before it and a line feed after it. -/
theorem splitsBreak_append_iff {before after : List Char} :
    SplitsBreak (before ++ after) (byteLength before) ↔
      before.getLast? = some '\r' ∧ after.head? = some '\n' := by
  constructor
  · rintro ⟨head, rest, htext, hoffset⟩
    have hsize : byteLength before = byteLength (head ++ ['\r']) := by
      rw [hoffset, byteLength_append]
      rfl
    have htext' : before ++ after = (head ++ ['\r']) ++ '\n' :: rest := by simp [htext]
    obtain rfl := eq_of_byteLength_eq ⟨after, rfl⟩ ⟨_, htext'.symm⟩ hsize
    rw [List.append_cancel_left_eq] at htext'
    exact ⟨List.getLast?_concat .., by rw [htext', List.head?_cons]⟩
  · rintro ⟨hlast, hhead⟩
    obtain ⟨head, rfl⟩ := List.getLast?_eq_some_iff.mp hlast
    obtain ⟨rest, rfl⟩ := List.head?_eq_some_iff.mp hhead
    exact ⟨head, rest, by rw [List.append_assoc]; rfl, by rw [byteLength_append]; rfl⟩

/-! ### The first line -/

/-- A text cut into its first line, the ending of that line, and the text after it. -/
structure FirstLine (text body ending after : List Char) : Prop where
  text_eq : text = body ++ (ending ++ after)
  plain : ∀ c ∈ body, c ≠ '\n' ∧ c ≠ '\r'
  ends : EndsLine ending after

theorem FirstLine.cons {c : Char} {text body ending after : List Char}
    (h : FirstLine text body ending after) (hc : c ≠ '\n' ∧ c ≠ '\r') :
    FirstLine (c :: text) (c :: body) ending after where
  text_eq := by rw [h.text_eq, List.cons_append]
  plain d hd := by
    rcases List.mem_cons.mp hd with rfl | hd
    · exact hc
    · exact h.plain d hd
  ends := h.ends

/-- The next line starts after the ending of the first, if there is one. -/
theorem exists_firstLine (offset : Nat) (text : List Char) :
    ∃ body ending after, FirstLine text body ending after ∧
      nextLineStarts offset text =
        if ending = [] then []
        else (offset + byteLength (body ++ ending)) ::
          nextLineStarts (offset + byteLength (body ++ ending)) after := by
  fun_induction nextLineStarts offset text with
  | case1 => exact ⟨[], [], [], ⟨rfl, nofun, .endOfText⟩, rfl⟩
  | case2 offset rest =>
    exact ⟨[], ['\r', '\n'], rest, ⟨rfl, nofun, .returnAndFeed rest⟩, rfl⟩
  | case3 offset c rest hpair next hbreak =>
    refine ⟨[], [c], rest, ⟨rfl, nofun, ?_⟩, by simp [next]⟩
    rcases hbreak with rfl | rfl
    · exact .lineFeed rest
    · refine .carriageReturn fun hfeed => ?_
      obtain ⟨rest, rfl⟩ := List.head?_eq_some_iff.mp hfeed
      exact hpair rest rfl rfl
  | case4 offset c rest hpair next hplain ih =>
    obtain ⟨body, ending, after, hfirst, hstarts⟩ := ih
    rw [not_or] at hplain
    refine ⟨c :: body, ending, after, hfirst.cons hplain, ?_⟩
    rw [hstarts, List.cons_append, byteLength_cons, ← Nat.add_assoc]

/-- Lines start in the order of the text. -/
theorem pairwise_nextLineStarts (offset : Nat) (text : List Char) :
    (offset :: nextLineStarts offset text).Pairwise (· < ·) := by
  have hafter {a b : Nat} {starts : List Nat} (hab : a < b) (h : (b :: starts).Pairwise (· < ·)) :
      (a :: b :: starts).Pairwise (· < ·) :=
    List.pairwise_cons.mpr ⟨fun c hc => by
      rcases List.mem_cons.mp hc with rfl | hc
      · exact hab
      · exact Nat.lt_trans hab (List.rel_of_pairwise_cons h hc), h⟩
  fun_induction nextLineStarts offset text with
  | case1 => exact List.pairwise_singleton _ _
  | case2 offset rest ih => exact hafter (by omega) ih
  | case3 offset c rest hpair next hbreak ih =>
    exact hafter (Nat.lt_add_of_pos_right c.utf8Size_pos) ih
  | case4 offset c rest hpair next hplain ih =>
    refine List.pairwise_cons.mpr ⟨fun start hstart => ?_, (List.pairwise_cons.mp ih).2⟩
    exact Nat.lt_trans (Nat.lt_add_of_pos_right c.utf8Size_pos)
      (List.rel_of_pairwise_cons ih hstart)

namespace LineMap

/-! ### Any line -/

/-- Line `i` of a text, between the text before it and its ending. -/
structure IsLine (text : List Char) (i : Nat) (before body ending after : List Char) : Prop where
  text_eq : text = before ++ (body ++ (ending ++ after))
  apart : ¬ SplitsBreak text (byteLength before)
  plain : ∀ c ∈ body, c ≠ '\n' ∧ c ≠ '\r'
  ends : EndsLine ending after
  start : (ofText text).lineStart? i = some (byteLength before)
  next : (ofText text).lineStart? (i + 1) =
    if ending = [] then none else some (byteLength (before ++ (body ++ ending)))

/-- From line `i` on, a line map is that of the text that is left there. -/
theorem exists_drop_starts {text : List Char} {i : Nat} (h : i < (ofText text).lineCount) :
    ∃ before rest, text = before ++ rest ∧ ¬ SplitsBreak text (byteLength before) ∧
      (ofText text).starts.drop i =
        byteLength before :: nextLineStarts (byteLength before) rest := by
  induction i with
  | zero =>
    exact ⟨[], text, rfl, fun ⟨_, _, _, hoffset⟩ => absurd hoffset (Nat.succ_ne_zero _).symm, rfl⟩
  | succ i ih =>
    obtain ⟨before, rest, htext, -, hdrop⟩ := ih (Nat.lt_of_succ_lt h)
    obtain ⟨body, ending, after, hfirst, hstarts⟩ := exists_firstLine (byteLength before) rest
    have htail : (ofText text).starts.drop (i + 1) = nextLineStarts (byteLength before) rest := by
      rw [← List.tail_drop, hdrop, List.tail_cons]
    by_cases hending : ending = []
    · have hlength := congrArg List.length htail
      rw [hstarts, if_pos hending, List.length_drop, List.length_nil] at hlength
      rw [lineCount] at h
      omega
    · have hcut : text = (before ++ (body ++ ending)) ++ after := by simp [htext, hfirst.text_eq]
      refine ⟨before ++ (body ++ ending), after, hcut, fun hsplit => ?_, ?_⟩
      · rw [hcut, splitsBreak_append_iff, ← List.append_assoc] at hsplit
        exact hfirst.ends.not_split hending hsplit
      rw [htail, hstarts, if_neg hending, byteLength_append before]

/-- A line map has a start for each line. -/
theorem exists_isLine {text : List Char} {i : Nat} (h : i < (ofText text).lineCount) :
    ∃ before body ending after, IsLine text i before body ending after := by
  obtain ⟨before, rest, htext, hapart, hdrop⟩ := exists_drop_starts h
  obtain ⟨body, ending, after, hfirst, hstarts⟩ := exists_firstLine (byteLength before) rest
  refine ⟨before, body, ending, after, by rw [htext, hfirst.text_eq], hapart, hfirst.plain,
    hfirst.ends, ?_, ?_⟩
  · rw [lineStart?, ← List.head?_drop, hdrop, List.head?_cons]
  · rw [lineStart?, ← List.head?_drop, ← List.tail_drop, hdrop, List.tail_cons, hstarts]
    split
    · rfl
    · rw [List.head?_cons, byteLength_append before]

/-- An offset is on the last line that starts at or before it. -/
theorem lineAt_eq {text : List Char} {i start offset : Nat}
    (hstart : (ofText text).lineStart? i = some start) (hle : start ≤ offset)
    (hnext : ∀ next, (ofText text).lineStart? (i + 1) = some next → offset < next) :
    (ofText text).lineAt offset = i := by
  obtain ⟨hi, hget⟩ := List.getElem?_eq_some_iff.mp hstart
  have hbefore : ∀ s ∈ (ofText text).starts.take (i + 1), decide (s ≤ offset) = true := by
    intro s hs
    obtain ⟨j, hj, rfl⟩ := List.mem_take_iff_getElem.mp hs
    rw [decide_eq_true_eq]
    rcases Nat.lt_or_eq_of_le (Nat.le_of_lt_succ (Nat.lt_of_lt_of_le hj (Nat.min_le_left _ _)))
      with hlt | rfl
    · have hearlier := List.pairwise_iff_getElem.mp (pairwise_nextLineStarts 0 text) j i
        (Nat.lt_of_lt_of_le hj (Nat.min_le_right _ _)) hi hlt
      exact Nat.le_trans (Nat.le_of_lt hearlier) (hget ▸ hle)
    · exact hget ▸ hle
  have hafter :
      ((ofText text).starts.drop (i + 1)).takeWhile (fun s => decide (s ≤ offset)) = [] := by
    cases hdrop : (ofText text).starts.drop (i + 1) with
    | nil => rfl
    | cons next rest =>
      have hlt := hnext next (by rw [lineStart?, ← List.head?_drop, hdrop, List.head?_cons])
      rw [List.takeWhile_cons_of_neg (by simpa using hlt)]
  rw [lineAt, ← List.take_append_drop (i + 1) (ofText text).starts,
    List.takeWhile_append_of_pos hbefore, hafter, List.append_nil, List.length_take]
  omega

/-- Every offset is on a line that starts at or before it, and the next line starts after it. -/
theorem exists_lineStart (text : List Char) (offset : Nat) :
    ∃ i start, (ofText text).lineStart? i = some start ∧ start ≤ offset ∧
      ∀ next, (ofText text).lineStart? (i + 1) = some next → offset < next := by
  -- The last line that starts there.
  let startsBy (i : Nat) : Prop := ((ofText text).lineStart? i).any (· ≤ offset) = true
  have hfirst : startsBy 0 := by simp [startsBy]
  have hlast := Nat.findGreatest_spec (P := startsBy) (Nat.zero_le (ofText text).lineCount) hfirst
  obtain ⟨start, hstart, hle⟩ := (Option.any_eq_true _ _).mp hlast
  refine ⟨_, start, hstart, by simpa using hle, fun next hnext => ?_⟩
  have hcount := (List.getElem?_eq_some_iff.mp hnext).1
  have hlater : ¬ startsBy _ :=
    Nat.findGreatest_is_greatest (Nat.lt_succ_self _) (Nat.le_of_lt hcount)
  simpa [startsBy, hnext] using hlater

/-! ### Cuts on a line -/

namespace IsLine

variable {text before body ending after : List Char} {i : Nat}

/-- Where a line ends, whether another one comes after it or not. -/
theorem stop_eq (h : IsLine text i before body ending after) :
    ((ofText text).lineStart? (i + 1)).getD (byteLength text) =
      byteLength before + byteLength (body ++ ending) := by
  rw [h.next]
  split
  · next hnil =>
    have hafter : after = [] := h.ends.after_eq_nil hnil
    rw [Option.getD_none, h.text_eq, hnil, hafter, List.nil_append, byteLength_append before]
  · rw [Option.getD_some, byteLength_append before]

/-- An offset is on a line from the start of the line to the end of its ending. -/
theorem lineAt_eq {offset : Nat} (h : IsLine text i before body ending after)
    (hstart : byteLength before ≤ offset)
    (hstop : ending ≠ [] → offset < byteLength (before ++ (body ++ ending))) :
    (ofText text).lineAt offset = i := by
  refine LineMap.lineAt_eq h.start hstart fun next hnext => ?_
  rw [h.next] at hnext
  split at hnext
  · cases hnext
  · next hending => exact Option.some.inj hnext ▸ hstop hending

end IsLine

/-- A cut of a text is a cut of one of its lines: at its start, in its text, or in its ending. -/
theorem exists_isLine_of_isCut {text : List Char} {offset : Nat} (h : IsCut text offset) :
    ∃ i before body ending after pre, IsLine text i before body ending after ∧
      pre <+: body ++ ending ∧ (ending ≠ [] → pre ≠ body ++ ending) ∧
      offset = byteLength (before ++ pre) := by
  obtain ⟨head, rest, htext, rfl⟩ := isCut_iff.mp h
  obtain ⟨i, start, hstart, hle, hnext⟩ := exists_lineStart text (byteLength head)
  obtain ⟨before, body, ending, after, hline⟩ :=
    exists_isLine (List.getElem?_eq_some_iff.mp hstart).1
  obtain rfl : byteLength before = start := Option.some.inj (hline.start.symm.trans hstart)
  obtain ⟨pre, rfl⟩ := prefix_of_byteLength_le ⟨_, hline.text_eq.symm⟩ ⟨_, htext.symm⟩ hle
  have hparts : pre ++ rest = body ++ (ending ++ after) := by
    have := htext.symm.trans hline.text_eq
    rwa [List.append_assoc, List.append_cancel_left_eq] at this
  have hlt : ending ≠ [] → byteLength pre < byteLength (body ++ ending) := by
    intro hending
    have := hnext _ (hline.next.trans (if_neg hending))
    simp only [byteLength_append] at this ⊢
    omega
  refine ⟨i, before, body, ending, after, pre, hline, ?_, fun hending heq => ?_, rfl⟩
  · by_cases hending : ending = []
    · rw [hending, hline.ends.after_eq_nil hending] at hparts
      exact ⟨rest, by rw [hparts, hending, List.append_nil]⟩
    · exact prefix_of_byteLength_le ⟨rest, rfl⟩ ⟨after, by rw [hparts, List.append_assoc]⟩
        (Nat.le_of_lt (hlt hending))
  · exact absurd (hlt hending) (by rw [heq]; exact Nat.lt_irrefl _)

end LineMap

end Unchain.Text
