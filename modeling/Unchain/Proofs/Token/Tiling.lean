import Mathlib.Data.Nat.Find
import Mathlib.Logic.Function.Iterate
import Unchain.Proofs.Token.Position

/-!
# Tokens tile a text

A scanner that keeps trivia steps from one token to the token that starts where
it ends. Each token before the end of the text has a character, so the end is
reached after at most as many tokens as the text has characters; the tokens on
the way cover the text without a gap, and their texts make up the text.

Nothing here depends on how a token is read, only on `Lexeme.Fits`: that each reader
ends at a cut of the text.
-/

namespace Unchain.Token

namespace Cursor

variable {text : List Char} {c : Cursor}

namespace OnToken

/-- The text of a token is what its offsets cut out. -/
theorem text_eq (h : c.OnToken text) :
    ∃ l : Lexeme, l.Fits c.tokenRest ∧ c.text.toList = Text.upTo l.length c.tokenRest ∧
      c.rest = Text.after l.length c.tokenRest := by
  obtain ⟨l, hl, -, hrest, hstop⟩ := h.reads
  refine ⟨l, hl, ?_, hrest⟩
  rw [Cursor.text, String.toList_ofList, hstop, Nat.add_sub_cancel_left, Text.slice_zero]

/-- The text from the start of a token is that of the token and what comes after it. -/
theorem text_append_rest (h : c.OnToken text) : c.text.toList ++ c.rest = c.tokenRest := by
  obtain ⟨l, hl, htoken, hrest⟩ := h.text_eq
  rw [htoken, hrest, hl.isCut.upTo_append_after]

theorem stop_eq (h : c.OnToken text) : c.stop = c.start + Text.byteLength c.text.toList := by
  obtain ⟨before, htext, hstart⟩ := h.starts
  obtain ⟨before', htext', hstop⟩ := h.endsIn
  have hparts := congrArg Text.byteLength (htext.symm.trans htext')
  have htoken := congrArg Text.byteLength h.text_append_rest
  simp only [Text.byteLength_append] at hparts htoken
  omega

theorem isCut_start (h : c.OnToken text) : Text.IsCut text c.start := by
  obtain ⟨before, htext, hstart⟩ := h.starts
  exact Text.isCut_iff.mpr ⟨before, _, htext, hstart⟩

theorem isCut_stop (h : c.OnToken text) : Text.IsCut text c.stop := by
  obtain ⟨before, htext, hstop⟩ := h.endsIn
  exact Text.isCut_iff.mpr ⟨before, _, htext, hstop⟩

theorem start_le_stop (h : c.OnToken text) : c.start ≤ c.stop := by
  rw [h.stop_eq]
  exact Nat.le_add_right _ _

/-- A token before the end of the text is not empty. -/
theorem start_lt_stop (h : c.OnToken text) (hk : c.kind ≠ .endOfFile) : c.start < c.stop := by
  have hlength := h.length_rest_lt hk
  have htoken := congrArg List.length h.text_append_rest
  have hchars := Text.length_le_byteLength c.text.toList
  rw [List.length_append] at htoken
  rw [h.stop_eq]
  omega

/-- The end of the text is an empty token there. -/
theorem start_of_endOfFile (h : c.OnToken text) (hk : c.kind = .endOfFile) :
    c.start = Text.byteLength text := by
  obtain ⟨before, htext, hstart⟩ := h.starts
  have hnil := h.kind_eq_endOfFile_iff.mp hk
  rw [hstart, htext, hnil, List.append_nil]

end OnToken

end Cursor

namespace Scanner

/-! ### One step -/

/-- A scanner that keeps trivia takes the first token that it reads. -/
theorem scanOver_of_keeps (bound : List Char) {s : Scanner} (h : s.skipTrivia = false) :
    scanOver bound s = s.place s.cursor.rest s.cursor.stop (.ofText s.cursor.rest) := by
  cases bound with
  | nil => rfl
  | cons c bound => rw [scanOver, h, Bool.false_and, if_neg Bool.false_ne_true]

/-- It leaves out nothing of what is after its token. -/
theorem scan_of_keeps {s : Scanner} (h : s.skipTrivia = false) :
    s.scan.cursor.start = s.cursor.stop ∧ s.scan.cursor.tokenRest = s.cursor.rest := by
  have hscan := scanOver_of_keeps s.cursor.rest
    (s := { s with
      cursor := { s.cursor with fullStart := s.cursor.stop, lineBreakBefore := false } })
    h
  rw [scan, hscan]
  exact ⟨rfl, rfl⟩

/-! ### All tokens -/

/-- The tokens of a text in order, trivia among them; after its end, the end again. -/
def token (text : List Char) (k : Nat) : Cursor := (scan^[k + 1] (ofText text false)).cursor

variable (text : List Char)

theorem skipTrivia_iterate_scan (k : Nat) :
    (scan^[k] (ofText text false)).skipTrivia = false := by
  induction k with
  | zero => rfl
  | succ k ih => rw [Function.iterate_succ_apply', scan_skipTrivia, ih]

theorem endsIn_iterate_scan (k : Nat) :
    (scan^[k] (ofText text false)).cursor.EndsIn text := by
  induction k with
  | zero => exact endsIn_ofText text false
  | succ k ih =>
    rw [Function.iterate_succ_apply']
    exact (onToken_scan ih).1.endsIn

theorem onToken_token (k : Nat) : (token text k).OnToken text := by
  rw [token, Function.iterate_succ_apply']
  exact (onToken_scan (endsIn_iterate_scan text k)).1

theorem token_zero : (token text 0).start = 0 ∧ (token text 0).tokenRest = text :=
  scan_of_keeps (skipTrivia_iterate_scan text 0)

/-- Each token takes up the text where the one before ended. -/
theorem token_succ (k : Nat) :
    (token text (k + 1)).start = (token text k).stop ∧
      (token text (k + 1)).tokenRest = (token text k).rest := by
  rw [token, Function.iterate_succ_apply']
  exact scan_of_keeps (skipTrivia_iterate_scan text (k + 1))

/-- The texts of the first tokens and what comes after them make up the text. -/
theorem flatMap_text_append (n : Nat) :
    ((List.range n).flatMap fun k => (token text k).text.toList) ++ (token text n).tokenRest =
      text := by
  induction n with
  | zero => exact (token_zero text).2
  | succ n ih =>
    have htoken := (onToken_token text n).text_append_rest
    rw [List.range_succ, List.flatMap_append, List.flatMap_singleton, (token_succ text n).2,
      List.append_assoc, htoken, ih]

/-- Every token before the end makes the rest of the text shorter. -/
theorem length_rest_token {k : Nat} (h : ∀ j ≤ k, (token text j).kind ≠ .endOfFile) :
    (token text k).rest.length + k < text.length := by
  have hshorter := (onToken_token text k).length_rest_lt (h k (Nat.le_refl k))
  induction k with
  | zero =>
    rw [(token_zero text).2] at hshorter
    exact hshorter
  | succ k ih =>
    have hbefore : ∀ j ≤ k, (token text j).kind ≠ .endOfFile := fun j hj => h j (by omega)
    have := ih hbefore ((onToken_token text k).length_rest_lt (hbefore k (Nat.le_refl k)))
    rw [(token_succ text k).2] at hshorter
    omega

/-- One of the tokens is the end of the text; take the first. -/
theorem exists_endOfFile :
    ∃ n ≤ text.length, (token text n).kind = .endOfFile ∧
      ∀ k < n, (token text k).kind ≠ .endOfFile := by
  have hend : ∃ n, (token text n).kind = .endOfFile := by
    by_contra hnever
    have := length_rest_token text (k := text.length)
      fun j _ hj => hnever ⟨j, hj⟩
    omega
  refine ⟨Nat.find hend, ?_, Nat.find_spec hend, fun k hk => Nat.find_min hend hk⟩
  by_contra hlong
  have := length_rest_token text (k := text.length)
    fun j hj => Nat.find_min hend (by omega)
  omega

/-- Reading a text with its trivia ends, after tokens that tile it. -/
theorem tokens_tile :
    ∃ n ≤ text.length,
      (token text 0).start = 0 ∧
      (∀ k < n, (token text k).kind ≠ .endOfFile ∧
        (token text k).start < (token text k).stop ∧
        Text.IsCut text (token text k).start ∧ Text.IsCut text (token text k).stop ∧
        (token text (k + 1)).start = (token text k).stop) ∧
      (token text n).kind = .endOfFile ∧
      (token text n).start = Text.byteLength text ∧ (token text n).stop = Text.byteLength text ∧
      ((List.range n).flatMap fun k => (token text k).text.toList) = text := by
  obtain ⟨n, hn, hend, hbefore⟩ := exists_endOfFile text
  have hlast := onToken_token text n
  refine ⟨n, hn, (token_zero text).1, ?_, hend, hlast.start_of_endOfFile hend,
    (hlast.of_endOfFile hend).2, ?_⟩
  · intro k hk
    have hon := onToken_token text k
    exact ⟨hbefore k hk, hon.start_lt_stop (hbefore k hk), hon.isCut_start, hon.isCut_stop,
      (token_succ text k).1⟩
  · have hall := flatMap_text_append text n
    rwa [hlast.kind_eq_endOfFile_iff.mp hend, List.append_nil] at hall

end Scanner

end Unchain.Token
