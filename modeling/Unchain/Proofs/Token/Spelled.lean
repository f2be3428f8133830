import Mathlib.Data.List.Induction
import Unchain.Proofs.Token.Session
import Unchain.Proofs.Token.Tiling

/-!
# Tokens are spelled as their kinds are

A scanner is before the first token of its text or on a token of it, whatever
was done with it: scanning steps to a token, reading again stays on one, and a
checkpoint holds a cursor that the scanner had before (`Cursor.IsIn`,
`Scanner.Reached.isIn`). Before the first token there is nothing to read again,
because its kind is none of those that are read again.

So the text between the offsets of a token is the spelling of its kind, if the
kind has one (`Cursor.IsIn.slice?_of_spelling?`), and the other way round the
spelling of a kind is read as a token of that kind (`Kind.readsBack`).
-/

namespace Unchain.Token

/-! ### Where a scanner can stand -/

/-- The cursor is before the first token of the text or on one of its tokens. -/
inductive Cursor.IsIn (text : List Char) (c : Cursor) : Prop where
  | before (hk : c.kind = .unknown) (hends : c.EndsIn text)
  | on (h : c.OnToken text)

/-- A way to read a token again has nothing to read before the first token. -/
def Scanner.Idles (f : Scanner → Scanner) : Prop :=
  ∀ s : Scanner, s.cursor.kind = .unknown → f s = s

namespace Cursor.IsIn

variable {text : List Char} {s : Scanner}

theorem endsIn {c : Cursor} (h : c.IsIn text) : c.EndsIn text := by
  cases h with
  | before hk hends => exact hends
  | on h => exact h.endsIn

theorem scan (h : s.cursor.IsIn text) : s.scan.cursor.IsIn text :=
  .on (Scanner.onToken_scan h.endsIn).1

theorem rescan (h : s.cursor.IsIn text) {f : Scanner → Scanner} (hf : Scanner.Rescans f)
    (hidles : Scanner.Idles f) : (f s).cursor.IsIn text := by
  cases h with
  | before hk hends =>
    rw [hidles s hk]
    exact .before hk hends
  | on h => exact .on (hf.onToken h)

/-- The offsets of a token cut its spelling out of the text. -/
theorem slice?_of_spelling? {c : Cursor} (h : c.IsIn text) {w : String}
    (hw : c.kind.spelling? = some w) : Text.slice? text c.start c.stop = some w.toList := by
  cases h with
  | before hk hends =>
    rw [hk] at hw
    cases hw
  | on h =>
    obtain ⟨before, htext, hstart⟩ := h.starts
    obtain ⟨l, hl, hk, -, hstop⟩ := h.reads
    have hupTo : Text.upTo l.length c.tokenRest = w.toList := hl.spelled w (hk ▸ hw)
    have hlength : Text.byteLength w.toList = l.length := hupTo ▸ hl.isCut.byteLength_upTo
    have hdrop : Text.dropBytes? c.start text = some c.tokenRest := by
      rw [htext, hstart]
      exact Text.dropBytes?_append _ _
    rw [Text.slice?, if_pos (by omega), hdrop, Option.bind_some, hstop, Nat.add_sub_cancel_left,
      ← hlength, ← hl.isCut.upTo_append_after, hupTo]
    exact Text.takeBytes?_append _ _

end Cursor.IsIn

namespace Scanner

theorem idles_rescanGreater : Idles rescanGreater := by
  intro s hk
  rw [rescanGreater, if_neg (by simp [hk])]

theorem idles_rescanSlash : Idles rescanSlash := by
  intro s hk
  rw [rescanSlash, if_neg (by simp [hk])]

theorem idles_rescanTemplate : Idles rescanTemplate := by
  intro s hk
  rw [rescanTemplate, if_neg (by simp [hk])]

/-! ### Every sequence of operations -/

/-- The scanners that operations on a text lead to, with the checkpoints made on the way. Any of
these may be gone back to, in any order and more than once. -/
inductive Reached (text : List Char) (skipTrivia : Bool) : List Checkpoint → Scanner → Prop where
  | ofText : Reached text skipTrivia [] (.ofText text skipTrivia)
  | scan {saved : List Checkpoint} {s : Scanner} (h : Reached text skipTrivia saved s) :
      Reached text skipTrivia saved s.scan
  | rescanGreater {saved : List Checkpoint} {s : Scanner} (h : Reached text skipTrivia saved s) :
      Reached text skipTrivia saved s.rescanGreater
  | rescanSlash {saved : List Checkpoint} {s : Scanner} (h : Reached text skipTrivia saved s) :
      Reached text skipTrivia saved s.rescanSlash
  | rescanTemplate {saved : List Checkpoint} {s : Scanner} (h : Reached text skipTrivia saved s) :
      Reached text skipTrivia saved s.rescanTemplate
  | save {saved : List Checkpoint} {s : Scanner} (h : Reached text skipTrivia saved s) :
      Reached text skipTrivia (s.save :: saved) s
  | restore {saved : List Checkpoint} {s : Scanner} {c : Checkpoint}
      (h : Reached text skipTrivia saved s) (hc : c ∈ saved) :
      Reached text skipTrivia saved (s.restore c)

/-- The invariant of all operations: no cursor leaves the text, and no checkpoint holds one that
did. -/
theorem Reached.isIn {text : List Char} {skipTrivia : Bool} {saved : List Checkpoint} {s : Scanner}
    (h : Reached text skipTrivia saved s) :
    s.cursor.IsIn text ∧ ∀ c ∈ saved, c.cursor.IsIn text := by
  induction h with
  | ofText => exact ⟨.before rfl (endsIn_ofText text skipTrivia), List.forall_mem_nil _⟩
  | scan _ ih => exact ⟨ih.1.scan, ih.2⟩
  | rescanGreater _ ih => exact ⟨ih.1.rescan rescans_rescanGreater idles_rescanGreater, ih.2⟩
  | rescanSlash _ ih => exact ⟨ih.1.rescan rescans_rescanSlash idles_rescanSlash, ih.2⟩
  | rescanTemplate _ ih => exact ⟨ih.1.rescan rescans_rescanTemplate idles_rescanTemplate, ih.2⟩
  | save _ ih => exact ⟨ih.1, List.forall_mem_cons.mpr ⟨ih.1, ih.2⟩⟩
  | restore _ hc ih => exact ⟨ih.2 _ hc, ih.2⟩

end Scanner

/-- A session goes back to its newest checkpoint only, so it leads to no other scanners. -/
theorem Session.reached_run (text : List Char) (skipTrivia : Bool) (ops : List Operation) :
    ∃ saved,
      Scanner.Reached text skipTrivia saved ((Session.ofText text skipTrivia).run ops).scanner ∧
      ((Session.ofText text skipTrivia).run ops).checkpoints ⊆ saved := by
  induction ops using List.reverseRecOn with
  | nil => exact ⟨[], .ofText, List.Subset.refl _⟩
  | append_singleton ops op ih =>
    obtain ⟨saved, hreached, hsubset⟩ := ih
    have hrun : (Session.ofText text skipTrivia).run (ops ++ [op]) =
        ((Session.ofText text skipTrivia).run ops).step op := run_append _ _ _
    rw [hrun]
    generalize (Session.ofText text skipTrivia).run ops = s at hreached hsubset ⊢
    cases op with
    | scan => exact ⟨saved, hreached.scan, hsubset⟩
    | rescanGreater => exact ⟨saved, hreached.rescanGreater, hsubset⟩
    | rescanSlash => exact ⟨saved, hreached.rescanSlash, hsubset⟩
    | rescanTemplate => exact ⟨saved, hreached.rescanTemplate, hsubset⟩
    | save => exact ⟨_, hreached.save, List.cons_subset_cons _ hsubset⟩
    | restore =>
      cases hc : s.checkpoints with
      | nil =>
        have hsame : s.step .restore = s := by simp only [step, hc]
        rw [hsame]
        exact ⟨saved, hreached, hsubset⟩
      | cons c older =>
        rw [hc] at hsubset
        obtain ⟨hmem, holder⟩ := List.cons_subset.mp hsubset
        rw [step_restore hc]
        exact ⟨saved, hreached.restore hmem, holder⟩

/-! ### Printing a kind and reading it -/

/-- A scanner reads `text` as one token of kind `k`. Operators that start with `>` are put
together by reading the `>` again. -/
def Kind.ReadsBack (text : List Char) (k : Kind) : Prop :=
  ∀ skipTrivia, let c := (Scanner.ofText text skipTrivia).scan.rescanGreater.cursor
    c.kind = k ∧ c.start = 0 ∧ c.stop = Text.byteLength text

instance (text : List Char) (k : Kind) : Decidable (k.ReadsBack text) :=
  inferInstanceAs (Decidable (∀ _ : Bool, _ ∧ _ ∧ _))

theorem Kind.mem_all (k : Kind) : k ∈ Kind.all := by
  cases k <;> decide

theorem Kind.readsBack {k : Kind} {w : String} (h : k.spelling? = some w) :
    k.ReadsBack w.toList := by
  have hall : ∀ k ∈ Kind.all, k.spelling?.isSome → k.ReadsBack k.spelling := by decide +kernel
  have hread := hall k k.mem_all (by rw [h]; rfl)
  rwa [Kind.spelling_of_spelling? h] at hread

/-- After any operations the token of a scanner is spelled as its kind, and that spelling is read
as a token of this kind again. -/
theorem Scanner.Reached.token_spelled {text : List Char} {skipTrivia : Bool}
    {saved : List Checkpoint} {s : Scanner} (h : Reached text skipTrivia saved s) {w : String}
    (hw : s.cursor.kind.spelling? = some w) :
    Text.slice? text s.cursor.start s.cursor.stop = some w.toList ∧
      s.cursor.kind.ReadsBack w.toList :=
  ⟨h.isIn.1.slice?_of_spelling? hw, Kind.readsBack hw⟩

/-- An operator that is put together, after going back to where it was not. -/
theorem Scanner.Reached.token_spelled_shift :
    ∃ saved, ∃ s : Scanner, Reached "é >>>= 1".toList true saved s ∧
      s.cursor.kind = .shiftRightUnsignedEquals ∧
      Text.slice? "é >>>= 1".toList s.cursor.start s.cursor.stop = some ">>>=".toList ∧
      Kind.ReadsBack ">>>=".toList .shiftRightUnsignedEquals := by
  let first := (Scanner.ofText "é >>>= 1".toList true).scan.scan
  have hfirst : Reached "é >>>= 1".toList true [first.save] first := Reached.ofText.scan.scan.save
  -- Join the operator and step on, then go back to the `>` and join it again.
  have hback := hfirst.rescanGreater.scan.restore (List.mem_singleton_self first.save)
  let last := (first.rescanGreater.scan.restore first.save).rescanGreater
  have hlast : Reached "é >>>= 1".toList true [first.save] last := hback.rescanGreater
  have hk : last.cursor.kind = .shiftRightUnsignedEquals := by decide +kernel
  obtain ⟨hslice, hread⟩ := hlast.token_spelled (w := ">>>=") (by rw [hk]; rfl)
  exact ⟨_, last, hlast, hk, hslice, hk ▸ hread⟩

end Unchain.Token
