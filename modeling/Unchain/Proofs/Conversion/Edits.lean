import Mathlib.Data.List.DropRight
import Mathlib.Data.List.TakeWhile
import Unchain.Conversion.Splice

/-!
# Edits of statements

What the edits for groups of statements replace: the statements, and the spaces and tabs on a side
where other code stands on the same line (`exists_span_groupEdit?`). Such an edit cuts the text
between characters. Two edits of neighbouring groups overlap if nothing but spaces and tabs stands
between the groups, since both edits then take them in; in all other cases they do not
(`overlaps_groupEdit?_iff`).
-/

namespace Unchain.Conversion

open Chain (Group)
open Printer (Layout)
open Syntax (Node NodeId Tree)
open Text (Edit Span byteLength isBlank trimBlanks)
open Unroll (Unrolled)

/-! ### Spaces and tabs -/

/-- Text of spaces and tabs. -/
def IsIndentation (cs : List Char) : Prop := ∀ c ∈ cs, isIndent c = true

theorem isIndent_cases {c : Char} (h : isIndent c = true) : c = ' ' ∨ c = '\t' := by
  simpa [isIndent] using h

theorem isBlank_of_isIndent {c : Char} (h : isIndent c = true) : isBlank c = true := by
  rcases isIndent_cases h with rfl | rfl <;> decide

theorem ne_newline_of_isIndent {c : Char} (h : isIndent c = true) : c ≠ '\n' := by
  rcases isIndent_cases h with rfl | rfl <;> decide

theorem ne_newline_of_visible {c : Char} (h : isBlank c = false) : c ≠ '\n' := by
  rintro rfl
  exact absurd h (by decide)

/-- Spaces and tabs have one byte each. -/
theorem byteLength_indentation {cs : List Char} (h : IsIndentation cs) :
    byteLength cs = cs.length := by
  induction cs with
  | nil => rfl
  | cons c cs ih =>
      have hsize : c.utf8Size = 1 := by
        rcases isIndent_cases (h c List.mem_cons_self) with rfl | rfl <;> rfl
      rw [Text.byteLength_cons, hsize, ih fun d hd => h d (List.mem_cons_of_mem _ hd),
        List.length_cons, Nat.add_comm]

theorem isIndentation_takeWhile (cs : List Char) : IsIndentation (cs.takeWhile isIndent) :=
  fun _ => List.mem_takeWhile_imp

theorem isIndentation_rtakeWhile (cs : List Char) : IsIndentation (cs.rtakeWhile isIndent) :=
  fun _ => List.mem_rtakeWhile_imp

/-! ### Lines -/

variable (pre rest : List Char)

theorem lineBefore_append :
    lineBefore (pre ++ rest) (byteLength pre) = pre.rtakeWhile (· ≠ '\n') := by
  rw [lineBefore, Text.takeBytes?_append]
  rfl

theorem lineAfter_append :
    lineAfter (pre ++ rest) (byteLength pre) = rest.takeWhile (· ≠ '\n') := by
  rw [lineAfter, Text.dropBytes?_append]
  rfl

/-- Spaces and tabs at the start of a text stand on its first line. -/
theorem takeWhile_isIndent_line (cs : List Char) :
    (cs.takeWhile (· ≠ '\n')).takeWhile isIndent = cs.takeWhile isIndent := by
  rw [List.takeWhile_takeWhile]
  congr 1
  funext c
  cases hc : isIndent c with
  | false => simp
  | true => simp [ne_newline_of_isIndent hc]

theorem indentsBefore_append :
    indentsBefore (pre ++ rest) (byteLength pre) = byteLength (pre.rtakeWhile isIndent) := by
  rw [byteLength_indentation (isIndentation_rtakeWhile pre), indentsBefore, lineBefore_append,
    List.rtakeWhile, List.reverse_reverse, takeWhile_isIndent_line, List.rtakeWhile,
    List.length_reverse]

theorem indentsAfter_append :
    indentsAfter (pre ++ rest) (byteLength pre) = byteLength (rest.takeWhile isIndent) := by
  rw [byteLength_indentation (isIndentation_takeWhile rest), indentsAfter, lineAfter_append,
    takeWhile_isIndent_line]

/-! ### What an edit replaces -/

/-- The spaces and tabs before a position that an edit of statements there takes in. -/
def takenBefore : List Char :=
  if sharesLineBefore (pre ++ rest) (byteLength pre) then pre.rtakeWhile isIndent else []

/-- The spaces and tabs after a position that an edit of statements there takes in. -/
def takenAfter : List Char :=
  if sharesLineAfter (pre ++ rest) (byteLength pre) then rest.takeWhile isIndent else []

theorem suffix_takenBefore : takenBefore pre rest <:+ pre.rtakeWhile isIndent := by
  rw [takenBefore]
  split
  · exact List.suffix_refl _
  · exact List.nil_suffix

theorem prefix_takenAfter : takenAfter pre rest <+: rest.takeWhile isIndent := by
  rw [takenAfter]
  split
  · exact List.prefix_refl _
  · exact List.nil_prefix

variable (mid : List Char)

/-- An edit replaces the statements and what it takes in around them. -/
theorem span_statementsEdit (layout : Layout) (t : Tree) (statements : List NodeId) :
    (statementsEdit (pre ++ (mid ++ rest)) layout t statements (byteLength pre)
      (byteLength pre + byteLength mid)).span =
    .ofBounds (byteLength pre - byteLength (takenBefore pre (mid ++ rest)))
      (byteLength pre + byteLength mid + byteLength (takenAfter (pre ++ mid) rest)) := by
  have hbefore := indentsBefore_append pre (mid ++ rest)
  have hafter := indentsAfter_append (pre ++ mid) rest
  rw [List.append_assoc, Text.byteLength_append] at hafter
  rw [statementsEdit, takenBefore, takenAfter, List.append_assoc, Text.byteLength_append]
  cases sharesLineBefore (pre ++ (mid ++ rest)) (byteLength pre) <;>
    cases sharesLineAfter (pre ++ (mid ++ rest)) (byteLength pre + byteLength mid) <;>
    simp [hbefore, hafter]

/-! ### Neighbours -/

theorem takeWhile_prefix_of_neg {p : Char → Bool} {c : Char} (hc : p c = false)
    (before after : List Char) : (before ++ c :: after).takeWhile p <+: before := by
  rw [List.takeWhile_append, List.takeWhile_cons, hc]
  split
  · simp
  · exact List.takeWhile_prefix p

theorem rtakeWhile_suffix_of_neg {p : Char → Bool} {c : Char} (hc : p c = false)
    (before after : List Char) : (before ++ c :: after).rtakeWhile p <:+ after := by
  rw [List.rtakeWhile, ← List.reverse_reverse after, List.reverse_suffix]
  simpa using takeWhile_prefix_of_neg hc after.reverse before.reverse

theorem takeWhile_append_neg {p : Char → Bool} {c : Char} (hc : p c = false) {before : List Char}
    (hbefore : ∀ d ∈ before, p d = true) (after : List Char) :
    (before ++ c :: after).takeWhile p = before := by
  rw [List.takeWhile_append_of_pos hbefore, List.takeWhile_cons, hc]
  simp

theorem rtakeWhile_append_neg {p : Char → Bool} {c : Char} (hc : p c = false) (before : List Char)
    {after : List Char} (hafter : ∀ d ∈ after, p d = true) :
    (before ++ c :: after).rtakeWhile p = after := by
  have hreverse : (before ++ c :: after).reverse = after.reverse ++ c :: before.reverse := by simp
  rw [List.rtakeWhile, hreverse,
    takeWhile_append_neg hc (fun d hd => hafter d (List.mem_reverse.mp hd)), List.reverse_reverse]

/-- What is trimmed of a text that does not start with a blank starts like the text. -/
theorem trimBlanks_append {c : Char} (hc : isBlank c = false) {before : List Char}
    (hbefore : ∀ d ∈ before, isBlank d = true) (after : List Char) :
    trimBlanks (before ++ c :: after) = (c :: after).rdropWhile isBlank := by
  rw [trimBlanks, List.dropWhile_append_of_pos hbefore, List.dropWhile_cons, hc]
  rfl

/-- Trimming keeps every other character. -/
theorem trimBlanks_ne_nil {cs : List Char} {c : Char} (hmem : c ∈ cs) (hc : isBlank c = false) :
    trimBlanks cs ≠ [] := by
  intro hnil
  have hdropped : ∀ d ∈ cs.dropWhile isBlank, isBlank d = true :=
    List.rdropWhile_eq_nil_iff.mp hnil
  rw [← List.takeWhile_append_dropWhile (p := isBlank) (l := cs), List.mem_append] at hmem
  have hblank : isBlank c = true := hmem.elim List.mem_takeWhile_imp (hdropped c)
  rw [hc] at hblank
  cases hblank

variable {mid' between : List Char}

/-- Code stands before a position if a visible character does, with spaces and tabs between. -/
theorem sharesLineBefore_of_visible {c : Char} (hc : isBlank c = false)
    (hbetween : IsIndentation between) (before after : List Char) :
    sharesLineBefore ((before ++ c :: between) ++ after) (byteLength (before ++ c :: between)) =
      true := by
  have hline : c ∈ (before ++ c :: between).rtakeWhile (· ≠ '\n') := by
    have hne : ∀ d ∈ between.reverse, decide (d ≠ '\n') = true := fun d hd =>
      decide_eq_true (ne_newline_of_isIndent (hbetween d (List.mem_reverse.mp hd)))
    rw [List.rtakeWhile, List.reverse_append, List.reverse_cons, List.append_assoc,
      List.takeWhile_append_of_pos hne, List.singleton_append, List.takeWhile_cons,
      decide_eq_true (ne_newline_of_visible hc)]
    simp
  rw [sharesLineBefore, lineBefore_append, Bool.not_eq_true', List.isEmpty_eq_false_iff]
  exact trimBlanks_ne_nil hline hc

/-- Code stands after a position if a visible character does that starts no line comment, with
spaces and tabs between. -/
theorem sharesLineAfter_of_visible {c : Char} (hc : isBlank c = false)
    (hbetween : IsIndentation between) {after : List Char}
    (hcomment : ¬ ['/', '/'] <+: c :: after) (before : List Char) :
    sharesLineAfter (before ++ (between ++ c :: after)) (byteLength before) = true := by
  have hline : (between ++ c :: after).takeWhile (· ≠ '\n') =
      between ++ c :: after.takeWhile (· ≠ '\n') := by
    rw [List.takeWhile_append_of_pos fun d hd =>
      decide_eq_true (ne_newline_of_isIndent (hbetween d hd)), List.takeWhile_cons,
      decide_eq_true (ne_newline_of_visible hc)]
    rfl
  have htrim := trimBlanks_append hc (fun d hd => isBlank_of_isIndent (hbetween d hd))
    (after.takeWhile (· ≠ '\n'))
  have hprefix : trimBlanks (between ++ c :: after.takeWhile (· ≠ '\n')) <+: c :: after := by
    rw [htrim]
    exact (List.rdropWhile_prefix isBlank _).trans
      ((List.prefix_cons_inj c).mpr (List.takeWhile_prefix _))
  rw [sharesLineAfter, lineAfter_append, hline, Bool.and_eq_true, Bool.not_eq_true',
    Bool.not_eq_true', List.isEmpty_eq_false_iff]
  refine ⟨trimBlanks_ne_nil (List.mem_append_right _ List.mem_cons_self) hc, ?_⟩
  rw [← Bool.not_eq_true, List.isPrefixOf_iff_prefix]
  exact fun h => hcomment (h.trans hprefix)

/-- Spaces and tabs between visible characters are taken in from both sides. -/
theorem taken_of_indentation {c c' : Char} (hc : isBlank c = false) (hc' : isBlank c' = false)
    (hbetween : IsIndentation between) {after : List Char}
    (hcomment : ¬ ['/', '/'] <+: c' :: after) (before : List Char) :
    takenAfter (before ++ [c]) (between ++ c' :: after) = between ∧
      takenBefore (before ++ c :: between) (c' :: after) = between := by
  have hindent : ∀ {d}, isBlank d = false → isIndent d = false := by
    intro d hd
    cases h : isIndent d with
    | false => rfl
    | true => rw [isBlank_of_isIndent h] at hd; cases hd
  constructor
  · rw [takenAfter, if_pos (sharesLineAfter_of_visible hc' hbetween hcomment (before ++ [c])),
      takeWhile_append_neg (hindent hc') hbetween]
  · rw [takenBefore, if_pos (sharesLineBefore_of_visible hc hbetween before (c' :: after)),
      rtakeWhile_append_neg (hindent hc) before hbetween]

/-- Of other text between them, two edits take in different parts. -/
theorem taken_le_of_visible {d : Char} (hd : isIndent d = false) (before before' after' after :
    List Char) :
    byteLength (takenAfter before (before' ++ d :: after')) ≤ byteLength before' ∧
      byteLength (takenBefore (before ++ (before' ++ d :: after')) after) ≤ byteLength after' := by
  refine ⟨Text.byteLength_le_of_start ?_, Text.byteLength_le_of_end ?_⟩
  · exact (prefix_takenAfter _ _).trans (takeWhile_prefix_of_neg hd before' after')
  · rw [← List.append_assoc]
    exact (suffix_takenBefore _ _).trans (rtakeWhile_suffix_of_neg hd _ after')

/-- Two edits of statements that begin and end visibly overlap exactly if the statements stand
apart by spaces and tabs only. -/
theorem overlaps_statementsEdit_iff {c c' : Char} {head tail : List Char} (hmid : mid = head ++ [c])
    (hc : isBlank c = false) (hmid' : mid' = c' :: tail) (hc' : isBlank c' = false)
    (hcomment : ¬ ['/', '/'] <+: mid' ++ rest)
    (hsize : byteLength (pre ++ (mid ++ (between ++ (mid' ++ rest)))) < Text.offsetCount)
    (layout layout' : Layout) (t t' : Tree) (statements statements' : List NodeId) :
    (statementsEdit (pre ++ (mid ++ (between ++ (mid' ++ rest)))) layout t statements
      (byteLength pre) (byteLength pre + byteLength mid)).span.overlaps
    (statementsEdit (pre ++ (mid ++ (between ++ (mid' ++ rest)))) layout' t' statements'
      (byteLength pre + byteLength mid + byteLength between)
      (byteLength pre + byteLength mid + byteLength between + byteLength mid')).span = true ↔
    between ≠ [] ∧ IsIndentation between := by
  have hspan := span_statementsEdit pre (between ++ (mid' ++ rest)) mid layout t statements
  have hspan' := span_statementsEdit (pre ++ (mid ++ between)) rest mid' layout' t' statements'
  simp only [List.append_assoc, Text.byteLength_append, ← Nat.add_assoc] at hspan hspan'
  have hpos : 0 < byteLength mid := by
    rw [hmid, Text.byteLength_append, Text.byteLength_cons]
    have := c.utf8Size_pos
    omega
  have htaken (before after : List Char) :
      byteLength (takenAfter before after) ≤ byteLength after :=
    Text.byteLength_le_of_start ((prefix_takenAfter before after).trans (List.takeWhile_prefix _))
  have hafter := htaken (pre ++ mid) (between ++ (mid' ++ rest))
  have hafter' := htaken (pre ++ (mid ++ (between ++ mid'))) rest
  simp only [Text.byteLength_append] at hafter hsize
  rw [hspan, hspan', Span.overlaps_iff, Span.start_ofBounds, Span.start_ofBounds,
    Span.stop_ofBounds (by omega) (by omega), Span.stop_ofBounds (by omega) (by omega)]
  -- Both edits take all that is between the statements, or each stops at a visible character.
  by_cases hbetween : IsIndentation between
  · have htaken : takenAfter (pre ++ mid) (between ++ (mid' ++ rest)) = between ∧
        takenBefore (pre ++ (mid ++ between)) (mid' ++ rest) = between := by
      subst hmid hmid'
      simpa using taken_of_indentation hc hc' hbetween hcomment (pre ++ head)
    rw [htaken.1, htaken.2, and_iff_left hbetween, ne_eq, ← Text.byteLength_eq_zero_iff]
    omega
  · obtain ⟨d, hd, hindent⟩ : ∃ d ∈ between, isIndent d = false := by
      simpa [IsIndentation] using hbetween
    obtain ⟨before, after, rfl⟩ := List.append_of_mem hd
    have htaken : byteLength (takenAfter (pre ++ mid)
          ((before ++ d :: after) ++ (mid' ++ rest))) ≤ byteLength before ∧
        byteLength (takenBefore (pre ++ (mid ++ (before ++ d :: after))) (mid' ++ rest)) ≤
          byteLength after := by
      constructor
      · rw [List.append_assoc, List.cons_append]
        exact (taken_le_of_visible hindent (pre ++ mid) before _ rest).1
      · rw [← List.append_assoc]
        exact (taken_le_of_visible hindent (pre ++ mid) before after (mid' ++ rest)).2
    have hlength : byteLength (before ++ d :: after) =
        byteLength before + (d.utf8Size + byteLength after) := by
      rw [Text.byteLength_append, Text.byteLength_cons]
    have hsize := d.utf8Size_pos
    constructor
    · intro h
      omega
    · exact fun h => absurd h.2 hbetween

/-- Both edits take in the two spaces. -/
example (layout : Layout) (t : Tree) :
    (statementsEdit "a;  b;".toList layout t [] 0 2).span = ⟨0, 4⟩ ∧
      (statementsEdit "a;  b;".toList layout t [] 4 6).span = ⟨2, 4⟩ :=
  ⟨rfl, rfl⟩

/-! ### Groups -/

/-- The statements of a group stand in a text as `mid`, after `pre`. -/
structure Stands (written : Tree) (group : Group) (pre mid : List Char) : Prop where
  first : ∃ n, written.part? group.first? = some n ∧ n.pos = byteLength pre
  last : ∃ n, written.part? group.root? = some n ∧ n.stop = byteLength pre + byteLength mid

/-- The edit for a group of statements is that of its stretch of the text. -/
theorem of_groupEdit? {source : List Char} {layout : Layout} {written t : Tree} {group : Group}
    {unrolled : Unrolled} {e : Edit} {pre mid : List Char} (hstands : Stands written group pre mid)
    (h : groupEdit? source layout written t group unrolled = some e) :
    e = (if group.kind = .arrowBody then bodyEdit else statementsEdit) source layout t
      unrolled.statements (byteLength pre) (byteLength pre + byteLength mid) := by
  obtain ⟨first, hfirst, hpos⟩ := hstands.first
  obtain ⟨last, hlast, hstop⟩ := hstands.last
  rw [groupEdit?] at h
  split at h
  · cases h
  · rw [hfirst, hlast] at h
    rw [← hstop, ← hpos]
    exact (Option.some.inj h).symm

/-- The edit for a group replaces its statements, and spaces and tabs around them at most. -/
theorem exists_span_groupEdit? {layout : Layout} {written t : Tree} {group : Group}
    {unrolled : Unrolled} {e : Edit} {pre mid rest : List Char}
    (hstands : Stands written group pre mid)
    (h : groupEdit? (pre ++ (mid ++ rest)) layout written t group unrolled = some e) :
    ∃ pre' before after rest', pre = pre' ++ before ∧ rest = after ++ rest' ∧
      IsIndentation before ∧ IsIndentation after ∧
      e.span = ⟨byteLength pre', byteLength (before ++ (mid ++ after))⟩ := by
  have he := of_groupEdit? hstands h
  split at he
  · refine ⟨pre, [], [], rest, (List.append_nil pre).symm, rfl, nofun, nofun, ?_⟩
    rw [he, bodyEdit, Span.ofBounds, Nat.add_sub_cancel_left, List.nil_append, List.append_nil]
  · obtain ⟨pre', hpre⟩ := (suffix_takenBefore pre (mid ++ rest)).trans (List.rtakeWhile_suffix _ _)
    obtain ⟨rest', hrest⟩ := (prefix_takenAfter (pre ++ mid) rest).trans (List.takeWhile_prefix _)
    refine ⟨pre', _, _, rest', hpre.symm, hrest.symm, fun c hc => ?_, fun c hc => ?_, ?_⟩
    · exact isIndentation_rtakeWhile _ c ((suffix_takenBefore _ _).subset hc)
    · exact isIndentation_takeWhile _ c ((prefix_takenAfter _ _).subset hc)
    · have hlength := congrArg byteLength hpre
      rw [Text.byteLength_append] at hlength
      rw [he, span_statementsEdit, Span.ofBounds, Text.byteLength_append, Text.byteLength_append,
        Span.mk.injEq]
      constructor <;> omega

/-- The edit for a group leaves the rest of the text as it is. -/
theorem apply_groupEdit? {layout : Layout} {written t : Tree} {group : Group}
    {unrolled : Unrolled} {e : Edit} {pre mid rest : List Char}
    (hstands : Stands written group pre mid)
    (hsize : byteLength (pre ++ (mid ++ rest)) < Text.offsetCount)
    (h : groupEdit? (pre ++ (mid ++ rest)) layout written t group unrolled = some e) :
    ∃ pre' before after rest', pre = pre' ++ before ∧ rest = after ++ rest' ∧
      IsIndentation before ∧ IsIndentation after ∧
      e.apply (pre ++ (mid ++ rest)) = some (pre' ++ (e.newText.toList ++ rest')) := by
  obtain ⟨pre', before, after, rest', rfl, rfl, hbefore, hafter, hspan⟩ :=
    exists_span_groupEdit? hstands h
  refine ⟨pre', before, after, rest', rfl, rfl, hbefore, hafter, ?_⟩
  have hstop : (Span.mk (byteLength pre') (byteLength (before ++ (mid ++ after)))).HasStop := by
    refine Nat.lt_of_le_of_lt ?_ hsize
    simp only [Text.byteLength_append]
    omega
  have hcut := Edit.apply_append hstop rest' e.newText
  rw [← hspan] at hcut
  simpa using hcut

namespace Sample

/-- `a;  b;` -/
def twoStatements : Tree := (SourceTree.ofSource "a.ts" "a;  b;").tree

def firstEdit? : Option Edit :=
  groupEdit? "a;  b;".toList {} twoStatements twoStatements ⟨[1], 0, .statement, none⟩ ⟨[], false⟩

def secondEdit? : Option Edit :=
  groupEdit? "a;  b;".toList {} twoStatements twoStatements ⟨[3], 2, .statement, none⟩ ⟨[], false⟩

theorem stands_of_part {id chain : NodeId} {pre mid : List Char}
    (h : (twoStatements.part? (some id)).any (fun n =>
      n.pos = byteLength pre ∧ n.stop = byteLength pre + byteLength mid) = true) :
    Stands twoStatements ⟨[id], chain, .statement, none⟩ pre mid := by
  obtain ⟨n, hn, h⟩ := (Option.any_eq_true ..).mp h
  obtain ⟨hpos, hstop⟩ := of_decide_eq_true h
  exact ⟨⟨n, hn, hpos⟩, ⟨n, hn, hstop⟩⟩

theorem stands_first : Stands twoStatements ⟨[1], 0, .statement, none⟩ [] "a;".toList :=
  stands_of_part (by decide +kernel)

theorem stands_second :
    Stands twoStatements ⟨[3], 2, .statement, none⟩ "a;  ".toList "b;".toList :=
  stands_of_part (by decide +kernel)

end Sample

/-- The first statement goes with blanks after it, and the second one stays. -/
theorem apply_groupEdit?_sample :
    ∃ e, Sample.firstEdit? = some e ∧ ∃ pre' before after rest',
      [] = pre' ++ before ∧ "  b;".toList = after ++ rest' ∧
      IsIndentation before ∧ IsIndentation after ∧
      e.apply "a;  b;".toList = some (pre' ++ (e.newText.toList ++ rest')) := by
  have hsome : Sample.firstEdit?.isSome = true := by decide +kernel
  obtain ⟨e, he⟩ := Option.isSome_iff_exists.mp hsome
  have hedit : groupEdit? ([] ++ ("a;".toList ++ "  b;".toList)) {} Sample.twoStatements
      Sample.twoStatements ⟨[1], 0, .statement, none⟩ ⟨[], false⟩ = some e := he
  exact ⟨e, he, apply_groupEdit? Sample.stands_first (by decide) hedit⟩

/-- The edits for two groups of statements that begin and end visibly overlap exactly if the groups
stand apart by spaces and tabs only. -/
theorem overlaps_groupEdit?_iff {layout layout' : Layout} {written t t' : Tree}
    {group group' : Group} {unrolled unrolled' : Unrolled} {e e' : Edit}
    {pre mid between mid' rest : List Char} {c c' : Char} {head tail : List Char}
    (hstands : Stands written group pre mid)
    (hstands' : Stands written group' (pre ++ (mid ++ between)) mid')
    (hkind : group.kind ≠ .arrowBody) (hkind' : group'.kind ≠ .arrowBody)
    (hmid : mid = head ++ [c]) (hc : isBlank c = false)
    (hmid' : mid' = c' :: tail) (hc' : isBlank c' = false)
    (hcomment : ¬ ['/', '/'] <+: mid' ++ rest)
    (hsize : byteLength (pre ++ (mid ++ (between ++ (mid' ++ rest)))) < Text.offsetCount)
    (h : groupEdit? (pre ++ (mid ++ (between ++ (mid' ++ rest)))) layout written t group unrolled =
      some e)
    (h' : groupEdit? (pre ++ (mid ++ (between ++ (mid' ++ rest)))) layout' written t' group'
      unrolled' = some e') :
    e.span.overlaps e'.span = true ↔ between ≠ [] ∧ IsIndentation between := by
  have he := of_groupEdit? hstands h
  have he' := of_groupEdit? hstands' h'
  rw [if_neg hkind] at he
  rw [if_neg hkind', Text.byteLength_append, Text.byteLength_append, ← Nat.add_assoc] at he'
  rw [he, he']
  exact overlaps_statementsEdit_iff pre rest mid hmid hc hmid' hc' hcomment hsize layout layout'
    t t' unrolled.statements unrolled'.statements

/-- Both edits take the blanks between the statements. -/
theorem overlaps_groupEdit?_iff_sample :
    ∃ e e', Sample.firstEdit? = some e ∧ Sample.secondEdit? = some e' ∧
      e.span.overlaps e'.span = true := by
  have hsome : Sample.firstEdit?.isSome = true ∧ Sample.secondEdit?.isSome = true := by
    decide +kernel
  obtain ⟨e, he⟩ := Option.isSome_iff_exists.mp hsome.1
  obtain ⟨e', he'⟩ := Option.isSome_iff_exists.mp hsome.2
  have hblanks : IsIndentation "  ".toList := fun c hc => by
    obtain rfl : c = ' ' := by simpa using hc
    rfl
  have hoverlap : e.span.overlaps e'.span = true ↔ "  ".toList ≠ [] ∧ IsIndentation "  ".toList :=
    overlaps_groupEdit?_iff Sample.stands_first Sample.stands_second (by decide) (by decide)
      (show "a;".toList = ['a'] ++ [';'] from rfl) rfl (show "b;".toList = 'b' :: [';'] from rfl)
      rfl (show ¬ ['/', '/'] <+: "b;".toList ++ [] by decide) (by decide) he he'
  exact ⟨e, e', he, he', hoverlap.mpr ⟨by decide, hblanks⟩⟩

end Unchain.Conversion
