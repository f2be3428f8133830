import Mathlib.Data.List.Nodup
import Unchain.Proofs.Text.Lines
import Unchain.Text.Edit

/-!
# Edits that are made at once

A list of edits is made one edit after the other, from the back of the text. That
is the same as making all of them at once: `Replaces` says that a text is another
one with a new text in place of each stretch that an edit spans, and with all
that stands between these stretches as it was. An edit whose span does not cut
the text into characters (`Fits`) has no effect. All this is so of spans with an
end (`Span.HasStop`): without one, an edit may leave no text at all
(`applyTo_eq_none_of_wrapped`).

Edits that do not overlap end before the next one starts (`stop_le_start`), so
the text in front of an edit is still that of the source when its turn comes
(`foldrM_apply_replaces`). That is why an edit that does not fit the source does not
fit the text that it meets either (`Fits.of_foldrM_apply`).
-/

namespace Unchain.Text

namespace Edit

/-! ### Edits of a text -/

/-- Whether the span lies in the text and starts and ends between characters. -/
def Fits (text : List Char) (e : Edit) : Prop :=
  IsCut text e.span.start ∧ IsCut text (e.span.start + e.span.length)

instance (text : List Char) (e : Edit) : Decidable (e.Fits text) :=
  inferInstanceAs (Decidable (_ ∧ _))

/-- The second text is the first one, which starts at an offset, with new texts in place of the
stretches that the edits span, and with what stands between them. -/
inductive Replaces : Nat → List Char → List Edit → List Char → Prop
  | done {pos : Nat} {kept : List Char} : Replaces pos kept [] kept
  | next {pos : Nat} {kept old rest new : List Char} {newText : String} {edits : List Edit} :
      Replaces (pos + byteLength kept + byteLength old) rest edits new →
      Replaces pos (kept ++ (old ++ rest))
        (⟨⟨pos + byteLength kept, byteLength old⟩, newText⟩ :: edits)
        (kept ++ (newText.toList ++ new))

/-- The edits stand in the order of the text; an edit that inserts stands before one that replaces
what comes after the same offset. -/
def InOrder (edits : List Edit) : Prop :=
  edits.Pairwise fun a b => a.span.start < b.span.start ∨
    a.span.start = b.span.start ∧ a.span.length ≤ b.span.length

/-! ### The order of edits -/

theorem before_eq_false_iff {a b : Edit} :
    before b a = false ↔ a.span.start < b.span.start ∨
      a.span.start = b.span.start ∧ a.span.length ≤ b.span.length := by
  simp only [before, Bool.or_eq_false_iff, Bool.and_eq_false_iff, decide_eq_false_iff_not,
    beq_eq_false_iff_ne, ne_eq, not_lt]
  omega

theorem before_asymm (a b : Edit) (h : before a b = true) : before b a = false := by
  rw [before_eq_false_iff]
  simp only [before, Bool.or_eq_true, Bool.and_eq_true, decide_eq_true_eq, beq_iff_eq] at h
  omega

theorem before_trans (a b c : Edit) (hab : before b a = false) (hbc : before c b = false) :
    before c a = false := by
  rw [before_eq_false_iff] at *
  omega

theorem inOrder_stableSort (edits : List Edit) : InOrder (stableSort before edits) :=
  (pairwise_stableSort before_asymm before_trans edits).imp before_eq_false_iff.mp

/-- Edits of one span keep the order in which they are given. -/
theorem filter_span_stableSort (span : Span) (edits : List Edit) :
    (stableSort before edits).filter (·.span = span) = edits.filter (·.span = span) := by
  refine filter_stableSort before_asymm before_trans (fun a b ha hb => ?_) edits
  rw [decide_eq_true_eq] at ha hb
  rw [before_eq_false_iff, ha, hb]
  omega

/-- If no two edits have the same span, there is one order for all of them. -/
theorem stableSort_congr {edits edits' : List Edit} (hnodup : (edits.map Edit.span).Nodup)
    (hperm : edits'.Perm edits) : stableSort before edits' = stableSort before edits := by
  have hsorted : (stableSort before edits').Perm (stableSort before edits) :=
    (stableSort_perm _ _).trans (hperm.trans (stableSort_perm _ _).symm)
  refine hsorted.eq_of_pairwise (fun a b ha hb hab hba => ?_) (inOrder_stableSort _)
    (inOrder_stableSort _)
  have ha : a ∈ edits := hperm.mem_iff.mp ((stableSort_perm _ _).mem_iff.mp ha)
  have hb : b ∈ edits := (stableSort_perm _ _).mem_iff.mp hb
  have hspan : Span.mk a.span.start a.span.length = Span.mk b.span.start b.span.length := by
    rw [Span.mk.injEq]
    omega
  exact List.inj_on_of_nodup_map hnodup ha hb hspan

/-- Of two edits that do not overlap the one that comes first ends before the other starts. -/
theorem stop_le_start {a b : Edit} (ha : a.span.HasStop) (hb : b.span.HasStop)
    (horder : a.span.start < b.span.start ∨
      a.span.start = b.span.start ∧ a.span.length ≤ b.span.length)
    (h : a.span.overlaps b.span = false) : a.span.start + a.span.length ≤ b.span.start := by
  rw [← Bool.not_eq_true, Span.overlaps_iff, ha.stop_eq, hb.stop_eq] at h
  omega

/-! ### Edits that fit -/

variable {text : List Char} {e : Edit}

theorem fits_iff : e.Fits text ↔
    ∃ pre old rest, text = pre ++ (old ++ rest) ∧ e.span = ⟨byteLength pre, byteLength old⟩ := by
  rw [Fits, isCut_iff, isCut_iff]
  constructor
  · rintro ⟨⟨pre, rest, htext, hstart⟩, pre', rest', htext', hstop⟩
    obtain ⟨old, rfl⟩ : pre <+: pre' := by
      refine prefix_of_byteLength_le ⟨rest, htext.symm⟩ ⟨rest', htext'.symm⟩ ?_
      rw [← hstart, ← hstop]
      exact Nat.le_add_right _ _
    have hlength : e.span.length = byteLength old := by
      rw [byteLength_append, hstart] at hstop
      exact Nat.add_left_cancel hstop
    exact ⟨pre, old, rest', htext'.trans (List.append_assoc ..), by rw [← hstart, ← hlength]⟩
  · rintro ⟨pre, old, rest, htext, hspan⟩
    refine ⟨⟨pre, old ++ rest, htext, by rw [hspan]⟩, pre ++ old, rest, ?_, ?_⟩
    · rw [htext, List.append_assoc]
    · rw [hspan, byteLength_append]

/-- An edit that does not fit changes nothing. -/
theorem apply_eq_of_not_fits (hstop : e.span.HasStop) (h : ¬ e.Fits text) :
    e.apply text = some text := by
  rw [apply, hstop.stop_eq]
  split
  · next head tail hhead htail =>
    refine absurd ⟨isCut_iff_takeBytes?.mpr ?_, ?_⟩ h
    · exact Option.isSome_iff_exists.mpr ⟨head, hhead⟩
    · exact Option.isSome_iff_exists.mpr ⟨tail, htail⟩
  · rfl

/-- Whether an edit fits depends on the text up to its end alone. -/
theorem Fits.of_prefix {pre rest rest' : List Char}
    (hle : e.span.start + e.span.length ≤ byteLength pre) (h : e.Fits (pre ++ rest)) :
    e.Fits (pre ++ rest') := by
  obtain ⟨before, old, after, htext, hspan⟩ := fits_iff.mp h
  have hprefix : before ++ old <+: pre ++ rest := ⟨after, by rw [htext, List.append_assoc]⟩
  obtain ⟨kept, rfl⟩ : before ++ old <+: pre := by
    refine prefix_of_byteLength_le hprefix (List.prefix_append _ _) ?_
    rwa [hspan, ← byteLength_append] at hle
  exact fits_iff.mpr ⟨before, old, kept ++ rest', by simp only [List.append_assoc], hspan⟩

/-- Each of the edits ends where a span of 32 bits can end, and before the next one starts. -/
def Apart (edits : List Edit) : Prop :=
  (∀ e ∈ edits, e.span.HasStop) ∧
    edits.Pairwise fun a b => a.span.start + a.span.length ≤ b.span.start

theorem Apart.cons {edits : List Edit} (h : Apart (e :: edits)) :
    e.span.HasStop ∧ (∀ e' ∈ edits, e.span.start + e.span.length ≤ e'.span.start) ∧
      Apart edits := by
  obtain ⟨hstop, hstops⟩ := List.forall_mem_cons.mp h.1
  obtain ⟨hbehind, hends⟩ := List.pairwise_cons.mp h.2
  exact ⟨hstop, hbehind, hstops, hends⟩

theorem Apart.filter {edits : List Edit} (h : Apart edits) (p : Edit → Bool) :
    Apart (edits.filter p) :=
  ⟨fun e he => h.1 e (List.mem_of_mem_filter he), h.2.filter p⟩

/-- Edits that fit are made at once: what is in front of them is not changed. -/
theorem foldrM_apply_replaces {edits : List Edit} (hfits : ∀ e ∈ edits, e.Fits text)
    (hapart : Apart edits) {pre rest : List Char} (htext : text = pre ++ rest)
    (hpre : ∀ e ∈ edits, byteLength pre ≤ e.span.start) :
    ∃ new, edits.foldrM apply text = some (pre ++ new) ∧
      Replaces (byteLength pre) rest edits new := by
  induction edits generalizing pre rest with
  | nil => exact ⟨rest, congrArg some htext, .done⟩
  | cons e edits ih =>
    obtain ⟨hstop, hbehind, hrest⟩ := hapart.cons
    obtain ⟨before, old, after, hparts, hspan⟩ := fits_iff.mp (hfits e List.mem_cons_self)
    have hle := hpre e List.mem_cons_self
    obtain ⟨⟨start, length⟩, newText⟩ := e
    obtain ⟨rfl, rfl⟩ := Span.mk.inj hspan
    obtain ⟨kept, rfl⟩ : pre <+: before :=
      prefix_of_byteLength_le ⟨rest, htext.symm⟩ ⟨_, hparts.symm⟩ hle
    obtain rfl : rest = kept ++ (old ++ after) := by
      have := htext.symm.trans hparts
      rwa [List.append_assoc, List.append_cancel_left_eq] at this
    have hsource : text = (pre ++ kept ++ old) ++ after :=
      hparts.trans (List.append_assoc ..).symm
    obtain ⟨new, hnew, hreplaces⟩ :=
      ih (fun e he => hfits e (List.mem_cons_of_mem _ he)) hrest hsource fun e he => by
        rw [byteLength_append]
        exact hbehind e he
    refine ⟨kept ++ (newText.toList ++ new), ?_, ?_⟩
    · have happly := apply_append hstop new newText
      rw [List.foldrM_cons, hnew, Option.bind_eq_bind, Option.bind_some, List.append_assoc,
        happly, List.append_assoc]
    · rw [byteLength_append, byteLength_append] at hreplaces
      rw [byteLength_append]
      exact .next hreplaces

/-- An edit that fits the text that is left of a source by edits behind it fits the source. -/
theorem Fits.of_foldrM_apply {edits : List Edit} (hfits : ∀ e ∈ edits, e.Fits text)
    (hapart : Apart edits)
    (hbehind : ∀ e' ∈ edits, e.span.start + e.span.length ≤ e'.span.start) {left : List Char}
    (hleft : edits.foldrM apply text = some left) (h : e.Fits left) : e.Fits text := by
  cases edits with
  | nil =>
    obtain rfl : text = left := Option.some.inj hleft
    exact h
  | cons first others =>
    -- Up to the start of the first edit the text is that of the source.
    obtain ⟨pre, old, rest, htext, hspan⟩ := fits_iff.mp (hfits first List.mem_cons_self)
    have hstart : first.span.start = byteLength pre := by rw [hspan]
    have hpre : ∀ e' ∈ first :: others, byteLength pre ≤ e'.span.start := by
      intro e' he'
      rcases List.mem_cons.mp he' with rfl | he'
      · exact Nat.le_of_eq hstart.symm
      · have := hapart.cons.2.1 e' he'
        omega
    obtain ⟨new, hnew, -⟩ := foldrM_apply_replaces hfits hapart htext hpre
    obtain rfl : pre ++ new = left := Option.some.inj (hnew.symm.trans hleft)
    rw [htext]
    exact h.of_prefix (hstart ▸ hbehind first List.mem_cons_self)

/-- Edits that do not fit the source have no effect. -/
theorem foldrM_apply_fitting {edits : List Edit} (hapart : Apart edits) :
    edits.foldrM apply text = (edits.filter (·.Fits text)).foldrM apply text := by
  induction edits with
  | nil => rfl
  | cons e edits ih =>
    obtain ⟨hstop, hbehind, hrest⟩ := hapart.cons
    rw [List.foldrM_cons, ih hrest]
    by_cases he : e.Fits text
    · rw [List.filter_cons_of_pos (by simpa using he), List.foldrM_cons]
    · rw [List.filter_cons_of_neg (by simpa using he)]
      have hfitting {e' : Edit} (he' : e' ∈ edits.filter (·.Fits text)) :
          e' ∈ edits ∧ e'.Fits text := (List.mem_filter.mp he').imp_right of_decide_eq_true
      have hfits : ∀ e' ∈ edits.filter (·.Fits text), e'.Fits text := fun e' he' => (hfitting he').2
      obtain ⟨left, hleft, -⟩ := foldrM_apply_replaces hfits (hrest.filter _)
        (List.nil_append text).symm fun _ _ => Nat.zero_le _
      rw [hleft, List.nil_append, Option.bind_eq_bind, Option.bind_some]
      refine apply_eq_of_not_fits hstop fun hmeets => he ?_
      exact hmeets.of_foldrM_apply hfits (hrest.filter _)
        (fun e' he' => hbehind e' (hfitting he').1) hleft

/-- The edits of a list that do not overlap are made at once. Those that do not fit the source have
no effect; those of one span, which only insert, keep the order of the list. If no two spans are the
same the order of the list does not matter. -/
theorem applyTo_replaces (source : String) (edits : List Edit)
    (hstop : ∀ e ∈ edits, e.span.HasStop)
    (h : edits.Pairwise fun a b => a.span.overlaps b.span = false) :
    ∃ result, applyTo source edits = some result ∧
      (∃ ordered, ordered.Perm (edits.filter (·.Fits source.toList)) ∧ InOrder ordered ∧
        (∀ span, ordered.filter (·.span = span) =
          (edits.filter (·.Fits source.toList)).filter (·.span = span)) ∧
        Replaces 0 source.toList ordered result.toList) ∧
      ((edits.map Edit.span).Nodup →
        ∀ edits', edits'.Perm edits → applyTo source edits' = some result) := by
  have hsorted := stableSort_perm before edits
  -- Sorting only changes the order, and sorted edits that do not overlap are apart.
  have hapart : Apart (stableSort before edits) := by
    have hstops : ∀ e ∈ stableSort before edits, e.span.HasStop := fun e he =>
      hstop e (hsorted.mem_iff.mp he)
    have hoverlap := (hsorted.pairwise_iff (fun {a b} hab => by
      rwa [Span.overlaps_comm])).mpr h
    refine ⟨hstops, ((inOrder_stableSort edits).and hoverlap).imp_of_mem fun ha hb h => ?_⟩
    exact stop_le_start (hstops _ ha) (hstops _ hb) h.1 h.2
  have hfits : ∀ e ∈ (stableSort before edits).filter (·.Fits source.toList),
      e.Fits source.toList := fun e he => of_decide_eq_true (List.mem_filter.mp he).2
  obtain ⟨new, hnew, hreplaces⟩ := foldrM_apply_replaces hfits (hapart.filter _)
    (List.nil_append _).symm fun _ _ => Nat.zero_le _
  have hresult : applyTo source edits = some (String.ofList new) := by
    rw [applyTo, applyAll, foldrM_apply_fitting hapart, hnew]
    rfl
  refine ⟨String.ofList new, hresult, ?_, fun hnodup edits' hperm => ?_⟩
  · refine ⟨(stableSort before edits).filter (·.Fits source.toList), hsorted.filter _,
      (inOrder_stableSort edits).filter _, fun span => ?_, ?_⟩
    · rw [List.filter_comm, filter_span_stableSort, List.filter_comm]
    · rw [String.toList_ofList]
      exact hreplaces
  -- Without two edits of one span, the sorted list does not depend on the order before.
  · rw [applyTo, applyAll, stableSort_congr hnodup hperm]
    exact hresult

/-- Edits of a text of six bytes, the second of which is in the middle of a character. -/
def sample : List Edit :=
  [⟨⟨6, 0⟩, ")"⟩, ⟨⟨3, 2⟩, "LL"⟩, ⟨⟨3, 0⟩, "-"⟩, ⟨⟨1, 1⟩, "x"⟩, ⟨⟨7, 1⟩, "y"⟩, ⟨⟨0, 0⟩, "("⟩]

theorem applyTo_replaces_sample :
    (sample.Pairwise fun a b => a.span.overlaps b.span = false) ∧
      (∀ e ∈ sample, e.span.HasStop) ∧ applyTo "héllo" sample = some "(hé-LLo)" ∧
      (∃ ordered, ordered.Perm (sample.filter (·.Fits "héllo".toList)) ∧ InOrder ordered ∧
        (∀ span, ordered.filter (·.span = span) =
          (sample.filter (·.Fits "héllo".toList)).filter (·.span = span)) ∧
        Replaces 0 "héllo".toList ordered "(hé-LLo)".toList) ∧
      (sample.map Edit.span).Nodup ∧ applyTo "héllo" sample.reverse = some "(hé-LLo)" := by
  have hoverlap : sample.Pairwise fun a b => a.span.overlaps b.span = false := by decide
  have hstop : ∀ e ∈ sample, e.span.HasStop := by decide
  have hnodup : (sample.map Edit.span).Nodup := by decide
  have happly : applyTo "héllo" sample = some "(hé-LLo)" := by decide +kernel
  obtain ⟨result, hresult, hreplaces, hperm⟩ := applyTo_replaces "héllo" sample hstop hoverlap
  obtain rfl : "(hé-LLo)" = result := Option.some.inj (happly.symm.trans hresult)
  exact ⟨hoverlap, hstop, happly, hreplaces, hnodup, hperm hnodup _ (List.reverse_perm sample)⟩

/-- An edit between two characters whose span ends past the last offset of all leaves no text, if
its end in 32 bits is between two characters as well. -/
theorem applyTo_eq_none_of_wrapped (source : String) (e : Edit)
    (hwide : e.span.start < offsetCount ∧ e.span.length < offsetCount) (h : ¬ e.span.HasStop)
    (hstart : IsCut source.toList e.span.start) (hstop : IsCut source.toList e.span.stop) :
    applyTo source [e] = none := by
  have hlt : e.span.stop < e.span.start := by
    rw [Span.HasStop, Nat.not_lt] at h
    rw [Span.stop, Nat.mod_eq_sub_mod h, Nat.mod_eq_of_lt (by omega)]
    omega
  have hnone : e.apply source.toList = none := apply_eq_none_iff.mpr ⟨hstart, hstop, hlt⟩
  change ([e].foldrM apply source.toList).map String.ofList = none
  rw [List.foldrM_cons, List.foldrM_nil]
  exact congrArg _ hnone

/-- The end of the edit is 2 in 32 bits, before its start. -/
theorem applyTo_eq_none_of_wrapped_sample :
    (Span.mk 4 4294967294).stop = 2 ∧ applyTo "abcdef" [⟨⟨4, 4294967294⟩, "x"⟩] = none := by
  refine ⟨by decide, applyTo_eq_none_of_wrapped "abcdef" ⟨⟨4, 4294967294⟩, "x"⟩ ?_ ?_ ?_ ?_⟩
  · decide
  · decide
  · decide +kernel
  · decide +kernel

end Edit

end Unchain.Text
