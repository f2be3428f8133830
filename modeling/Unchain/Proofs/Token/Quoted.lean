import Unchain.Proofs.Token.Trivia
import Unchain.Token.Quote

/-!
# Reading a quoted string

The literal of a string is read back as one token that stands for the string,
whatever comes after the literal, if the string has no line separator and no
paragraph separator: these two end a line, so they end a literal, but `quote` does
not write them as escapes. With one of them in the string the literal is cut off
there (`scan_quote_iff`).
-/

namespace Unchain.Token

open Text (after after_append after_utf8Size byteLength byteLength_append byteLength_cons
  byteLength_nil)

/-- A character that can stand in a literal as `quote` writes it. -/
def IsQuotable (c : Char) : Prop := c ≠ '\u2028' ∧ c ≠ '\u2029'

instance (c : Char) : Decidable (IsQuotable c) := inferInstanceAs (Decidable (_ ∧ _))

/-- An escape of one letter stands for one character. -/
theorem stringBody_escape {letter c : Char} {rest : List Char} (hletter : letter.utf8Size = 1)
    (h : escape (letter :: rest) = ⟨1, [c]⟩) :
    stringBody '"' 0 ('\\' :: letter :: rest) = (stringBody '"' 0 rest).behind 2 [c] := by
  rw [stringBody, if_neg (by decide), if_neg (by decide), if_pos rfl, h]
  simp [stringBody, hletter]

/-- A character is read back from the way in which it is written. -/
theorem stringBody_quoteChar {c : Char} (h : IsQuotable c) (rest : List Char) :
    stringBody '"' 0 (quoteChar c ++ rest) =
      (stringBody '"' 0 rest).behind (byteLength (quoteChar c)) [c] := by
  by_cases hescaped : quoteChar c = [c]
  · have hquote : c ≠ '"' ∧ c ≠ '\\' ∧ c ≠ '\n' ∧ c ≠ '\r' := by
      refine ⟨?_, ?_, ?_, ?_⟩ <;> rintro rfl <;> cases hescaped
    have hline : isLineBreak c = false := by
      simp [isLineBreak, hquote.2.2.1, hquote.2.2.2, h.1, h.2]
    rw [hescaped, List.singleton_append, stringBody, if_neg hquote.1, hline,
      if_neg Bool.false_ne_true, if_neg hquote.2.1]
    rfl
  · obtain rfl | rfl | rfl | rfl | rfl : c = '"' ∨ c = '\\' ∨ c = '\n' ∨ c = '\r' ∨ c = '\t' := by
      by_contra hother
      simp only [not_or] at hother
      simp only [quoteChar, hother, if_false, not_true_eq_false] at hescaped
    all_goals exact stringBody_escape (by decide) rfl

/-- The literal ends before a character that it cannot hold. -/
theorem stringBody_of_not_quotable {c : Char} (h : ¬ IsQuotable c) (rest : List Char) :
    stringBody '"' 0 (quoteChar c ++ rest) = ⟨0, [], false⟩ := by
  obtain rfl | rfl : c = '\u2028' ∨ c = '\u2029' := by
    rw [IsQuotable, not_and_or, ne_eq, ne_eq, not_not, not_not] at h
    exact h
  · rfl
  · rfl

theorem stringBody_flatMap {cs : List Char} (h : ∀ c ∈ cs, IsQuotable c) (rest : List Char) :
    stringBody '"' 0 (cs.flatMap quoteChar ++ '"' :: rest) =
      ⟨byteLength (cs.flatMap quoteChar) + 1, cs, true⟩ := by
  induction cs with
  | nil => rfl
  | cons c cs ih =>
    obtain ⟨hc, hcs⟩ := List.forall_mem_cons.mp h
    rw [List.flatMap_cons, List.append_assoc, stringBody_quoteChar hc, ih hcs, Quoted.behind,
      byteLength_append, Nat.add_assoc]
    rfl

theorem closed_of_stringBody {cs rest : List Char}
    (h : (stringBody '"' 0 (cs.flatMap quoteChar ++ rest)).closed = true) :
    ∀ c ∈ cs, IsQuotable c := by
  induction cs with
  | nil => exact List.forall_mem_nil _
  | cons c cs ih =>
    rw [List.flatMap_cons, List.append_assoc] at h
    by_cases hc : IsQuotable c
    · rw [stringBody_quoteChar hc] at h
      exact List.forall_mem_cons.mpr ⟨hc, ih h⟩
    · rw [stringBody_of_not_quotable hc] at h
      cases h

theorem after_doubleQuote (rest : List Char) : after 1 ('"' :: rest) = rest :=
  after_utf8Size '"' rest

theorem ofText_doubleQuote (rest : List Char) :
    Lexeme.ofText ('"' :: rest) = string '"' ('"' :: rest) := by
  rw [Lexeme.ofText, if_neg (by decide), if_neg (by decide), if_neg (by decide), significant,
    if_neg (by simp)]
  simp [punctuator?, wordOrLiteral]

/-- The first token of a text that starts with none of trivia. -/
theorem scan_ofText_of_solid {text : List Char} (skipTrivia : Bool)
    (h : (Lexeme.ofText text).kind.isTrivia = false) :
    (Scanner.ofText text skipTrivia).scan =
      (Scanner.ofText text skipTrivia).place text 0 (Lexeme.ofText text) :=
  Scanner.scanOver_of_solid (s := (Scanner.ofText text skipTrivia).fresh) text h

theorem ofText_quote (value : String) :
    Lexeme.ofText (quote value).toList =
      string '"' ('"' :: (value.toList.flatMap quoteChar ++ ['"'])) := by
  rw [quote, String.toList_ofList, List.cons_append, ofText_doubleQuote]

/-- The scanner stands on a string, which is all of its text and nothing is wrong with. -/
structure Scanner.HasRead (s : Scanner) (value : String) : Prop where
  kind : s.cursor.kind = .string
  value : s.cursor.value = value
  closed : s.cursor.unterminated = false
  rest : s.cursor.rest = []
  errors : s.errors = #[]

/-- The literal of a string is read back as one token, which stands for the string, if and only if
the string has no line separator and no paragraph separator. -/
theorem scan_quote_iff (value : String) (skipTrivia : Bool) :
    (Scanner.ofText (quote value).toList skipTrivia).scan.HasRead value ↔
      ∀ c ∈ value.toList, IsQuotable c := by
  have hsolid : (Lexeme.ofText (quote value).toList).kind.isTrivia = false := by
    rw [ofText_quote]
    rfl
  rw [scan_ofText_of_solid skipTrivia hsolid, ofText_quote]
  constructor
  · intro h
    have hclosed : (stringBody '"' 0 (after 1 ('"' :: (value.toList.flatMap quoteChar ++
        ['"'])))).closed = true := Bool.not_inj h.closed
    rw [after_doubleQuote] at hclosed
    exact closed_of_stringBody hclosed
  · intro h
    have hbody : string '"' ('"' :: (value.toList.flatMap quoteChar ++ ['"'])) =
        { kind := .string, length := byteLength (quote value).toList, value := value.toList } := by
      rw [string, after_doubleQuote, stringBody_flatMap h, quote, String.toList_ofList]
      have hsize : ('"' : Char).utf8Size = 1 := rfl
      simp only [byteLength_cons, byteLength_append, byteLength_nil, hsize]
      congr 1
    rw [hbody]
    generalize (quote value).toList = text
    have hrest : after (byteLength text) text = [] := by simpa using after_append text []
    exact ⟨rfl, String.ofList_toList, rfl, hrest, rfl⟩

end Unchain.Token
