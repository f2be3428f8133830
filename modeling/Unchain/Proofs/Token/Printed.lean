import Mathlib.Data.List.Chain
import Unchain.Proofs.Token.Signs

/-!
# Tokens of printed text

Printed text has one blank at most before a token (`afterBlank`), and the text
after a token says where it ends: no character of a name follows a name, and no
character follows a sign that would make it a longer one. `Opens` says which
token a text starts with, and `Cursor.IsOn` that a scanner stands on it.

An operator that starts with `>` is read as a `>` first and joined to the whole
operator later (`Joins`). A text that holds no `=>` is `Inert`.
-/

namespace Unchain.Token

open Text (IsCut after byteAt? byteLength upTo)

/-- A text without the blank that it may start with. -/
def afterBlank : List Char → List Char
  | ' ' :: cs => cs
  | cs => cs

/-- The text starts with the token `l`, perhaps after a blank. -/
structure Opens (cs : List Char) (l : Lexeme) : Prop where
  ofText : Lexeme.ofText (afterBlank cs) = l
  isToken : l.kind.isTrivia = false
  noError : l.error = none
  sameLine : l.endsLine = false

/-- The scanner stands on the token `l` that the text starts with. -/
structure Cursor.IsOn (c : Cursor) (cs : List Char) (l : Lexeme) : Prop where
  tokenRest : c.tokenRest = afterBlank cs
  rest : c.rest = after l.length (afterBlank cs)
  kind : c.kind = l.kind
  value : c.value = String.ofList l.value
  sameLine : c.lineBreakBefore = false

theorem afterBlank_of_ne {c : Char} (cs : List Char) (h : c ≠ ' ') :
    afterBlank (c :: cs) = c :: cs := by
  unfold afterBlank
  split
  · next heq => exact absurd (List.cons.inj heq).1 h
  · rfl

theorem exists_cons_of_any {w : List Char} {p : Char → Bool} (h : w.head?.any p = true) :
    ∃ c cs, w = c :: cs ∧ p c = true := by
  cases w with
  | nil => cases h
  | cons c cs => exact ⟨c, cs, rfl, h⟩

/-- What comes after a token that starts with no blank. -/
theorem after_afterBlank {w : List Char} (hw : w.head?.any (· ≠ ' ') = true) (rest : List Char) :
    after (byteLength w) (afterBlank (w ++ rest)) = rest := by
  obtain ⟨c, cs, rfl, hc⟩ := exists_cons_of_any hw
  rw [List.cons_append, afterBlank_of_ne _ (by simpa using hc), ← List.cons_append,
    Text.after_append]

theorem Opens.eq {cs : List Char} {l l' : Lexeme} (h : Opens cs l) (h' : Opens cs l') : l = l' :=
  h.ofText.symm.trans h'.ofText

/-! ### Scanning -/

/-- A blank is trivia. -/
theorem isTrivia_of_isInlineBlank {c : Char} (cs : List Char) (h : isInlineBlank c = true) :
    (Lexeme.ofText (c :: cs)).kind.isTrivia = true := by
  rw [Lexeme.ofText, if_pos h]
  split <;> rfl

/-- No blank stands before a token that a blank was stepped over to. -/
theorem bytesWhile_isInlineBlank {cs : List Char}
    (h : (Lexeme.ofText cs).kind.isTrivia = false) : bytesWhile isInlineBlank cs = 0 := by
  cases cs with
  | nil => rfl
  | cons c cs =>
    cases hc : isInlineBlank c with
    | true => rw [isTrivia_of_isInlineBlank cs hc] at h; cases h
    | false => rw [bytesWhile, hc, if_neg Bool.false_ne_true]

namespace Scanner

variable {s : Scanner} {cs : List Char} {l : Lexeme}

theorem scanOver_of_isToken (bound : List Char) (h : Lexeme.ofText s.cursor.rest = l)
    (hl : l.kind.isTrivia = false) :
    scanOver bound s = s.place s.cursor.rest s.cursor.stop l := by
  cases bound with
  | nil => rw [scanOver, h]
  | cons c bound => simp [scanOver, h, hl]

/-- A blank is stepped over. -/
theorem scanOver_blank {ds : List Char} (hrest : s.cursor.rest = ' ' :: ds)
    (hskip : s.skipTrivia = true) (h : (Lexeme.ofText ds).kind.isTrivia = false) :
    scanOver (' ' :: ds) s =
      scanOver ds (s.place (' ' :: ds) s.cursor.stop { kind := .whiteSpace, length := 1 }) := by
  have hl : Lexeme.ofText (' ' :: ds) =
      { kind := .whiteSpace, length := 1 + bytesWhile isInlineBlank ds } := rfl
  rw [bytesWhile_isInlineBlank h] at hl
  rw [scanOver, hrest, hl, hskip]
  rfl

theorem isOn_place (start : Nat) (h : Opens cs l) (hline : s.cursor.lineBreakBefore = false) :
    (s.place (afterBlank cs) start l).cursor.IsOn cs l ∧
      (s.place (afterBlank cs) start l).errors = s.errors := by
  refine ⟨⟨rfl, rfl, rfl, rfl, ?_⟩, ?_⟩
  · simp [place, Cursor.place, hline, h.sameLine]
  · simp [place, h.noError]

theorem isOn_scanOver (h : Opens cs l) (hrest : s.cursor.rest = cs) (hskip : s.skipTrivia = true)
    (hline : s.cursor.lineBreakBefore = false) :
    (scanOver cs s).cursor.IsOn cs l ∧ (scanOver cs s).errors = s.errors := by
  have hplain (hcs : afterBlank cs = cs) :
      (scanOver cs s).cursor.IsOn cs l ∧ (scanOver cs s).errors = s.errors := by
    have hplace := isOn_place s.cursor.stop h hline
    rw [scanOver_of_isToken cs (by rw [hrest, ← h.ofText, hcs]) h.isToken, hrest]
    rwa [hcs] at hplace
  cases cs with
  | nil => exact hplain rfl
  | cons c ds =>
    by_cases hc : c = ' '
    · subst hc
      have htoken : (Lexeme.ofText ds).kind.isTrivia = false := h.ofText ▸ h.isToken
      have hrest' : (s.place (' ' :: ds) s.cursor.stop
          { kind := .whiteSpace, length := 1 }).cursor.rest = ds := Text.after_utf8Size ' ' ds
      rw [scanOver_blank hrest hskip htoken,
        scanOver_of_isToken ds (hrest'.symm ▸ h.ofText) h.isToken, hrest']
      exact isOn_place (s := s.place (' ' :: ds) s.cursor.stop { kind := .whiteSpace, length := 1 })
        _ h (by simp [place, Cursor.place, hline])
    · exact hplain (afterBlank_of_ne ds hc)

/-- A scan steps to the token that the text starts with. -/
theorem isOn_scan (h : Opens cs l) (hrest : s.cursor.rest = cs) (hskip : s.skipTrivia = true) :
    s.scan.cursor.IsOn cs l ∧ s.scan.errors = s.errors := by
  unfold scan
  rw [hrest]
  exact isOn_scanOver h hrest hskip rfl

end Scanner

/-! ### Names and words -/

@[simp] theorem Lexeme.kind_verbatim (k : Kind) (length : Nat) (cs : List Char) :
    (Lexeme.verbatim k length cs).kind = k := rfl

/-- What comes next makes no name longer. -/
def BreaksName (cs : List Char) : Prop := ∀ c, cs.head? = some c → isNamePart c = false

/-- No blank starts a name. -/
theorem isInlineBlank_of_isNameStart {c : Char} (h : isNameStart c = true) :
    isInlineBlank c = false := by
  have hne (d : Char) (hd : isNameStart d = false) : c ≠ d := by
    rintro rfl
    rw [h] at hd
    cases hd
  -- The blanks outside of the list are twelve characters in a row.
  have hrange : ¬ (0x2000 ≤ c.toNat ∧ c.toNat ≤ 0x200b) := by
    rintro ⟨hlo, hhi⟩
    have hall : ∀ i < 12, isNameStart (Char.ofNat (0x2000 + i)) = false := by decide +kernel
    have hc := hall (c.toNat - 0x2000) (by omega)
    rw [Nat.add_sub_cancel' hlo, Char.ofNat_toNat, h] at hc
    cases hc
  have hlist : [' ', '\t', '\x0b', '\x0c', '\u00a0', '\ufeff', '\u1680', '\u202f', '\u205f',
      '\u3000'].all (!isNameStart ·) = true := by decide +kernel
  rw [isInlineBlank, Bool.or_eq_false_iff]
  constructor
  · rw [List.contains_eq_mem, decide_eq_false_iff_not]
    exact fun hmem => hne c (by simpa using List.all_eq_true.mp hlist c hmem) rfl
  · simpa using hrange

theorem isDigit_of_isNameStart {c : Char} (h : isNameStart c = true) : c.isDigit = false := by
  cases hd : c.isDigit with
  | false => rfl
  | true =>
    have hrange : 48 ≤ c.toNat ∧ c.toNat ≤ 57 := by
      simpa [Char.isDigit, UInt32.le_iff_toNat_le] using hd
    have hall : ∀ i < 10, isNameStart (Char.ofNat (48 + i)) = false := by decide
    have hc := hall (c.toNat - 48) (by omega)
    rw [Nat.add_sub_cancel' hrange.1, Char.ofNat_toNat, h] at hc
    cases hc

/-- A text that starts with the first character of a name starts with a word. -/
theorem ofText_of_isNameStart {c : Char} (cs : List Char) (h : isNameStart c = true) :
    Lexeme.ofText (c :: cs) = word (c :: cs) := by
  have hne (d : Char) (hd : isNameStart d = false) : c ≠ d := by
    rintro rfl
    rw [h] at hd
    cases hd
  have hline : isLineBreak c = false := by
    simp only [isLineBreak, Bool.or_eq_false_iff, decide_eq_false_iff_not]
    exact ⟨⟨⟨hne _ (by decide), hne _ (by decide)⟩, hne _ (by decide)⟩, hne _ (by decide)⟩
  have hsign : punctuator? c (byteAt? 1 (c :: cs)) (byteAt? 2 (c :: cs)) = none := by
    have hfirst : ∀ k ∈ marks, k.spelling.head?.any isNameStart = false := by decide
    refine Option.eq_none_iff_forall_ne_some.mpr fun found hfound => ?_
    have hc := hfirst found.1 (punctuator?_eq_some hfound).1
    rw [head?_of_punctuator? hfound, Option.any_some, h] at hc
    cases hc
  rw [Lexeme.ofText, hline, if_neg Bool.false_ne_true, isInlineBlank_of_isNameStart h,
    if_neg Bool.false_ne_true, if_neg (hne '/' (by decide)), significant,
    if_neg fun hpoint => hne '.' (by decide) hpoint.1, hsign]
  simp [wordOrLiteral, isDigit_of_isNameStart h, h, hne '"' (by decide), hne '\x27' (by decide),
    hne '`' (by decide), hne '#' (by decide)]

theorem isNamePart_of_isNameText {w : List Char} (h : isNameText w = true) :
    ∀ c ∈ w, isNamePart c = true := by
  cases w with
  | nil => cases h
  | cons c rest =>
    rw [isNameText, Bool.and_eq_true, List.all_eq_true] at h
    refine List.forall_mem_cons.mpr ⟨?_, h.2⟩
    simp [isNamePart, h.1]

theorem takeWhile_isNamePart {w rest : List Char} (h : isNameText w = true)
    (hrest : BreaksName rest) : (w ++ rest).takeWhile isNamePart = w := by
  rw [List.takeWhile_append_of_pos (isNamePart_of_isNameText h)]
  cases rest with
  | nil => simp
  | cons c rest => simp [hrest c rfl]

/-- A word ends where a character follows that is in no name. -/
theorem ofText_word {w rest : List Char} (h : isNameText w = true) (hrest : BreaksName rest) :
    Lexeme.ofText (w ++ rest) =
      .verbatim ((Kind.keyword? (String.ofList w)).getD .identifier) (byteLength w)
        (w ++ rest) := by
  have hlength : bytesWhile isNamePart (w ++ rest) = byteLength w := by
    rw [bytesWhile_eq, takeWhile_isNamePart h hrest]
  cases w with
  | nil => cases h
  | cons c cs =>
    have hc : isNameStart c = true := by
      rw [isNameText, Bool.and_eq_true] at h
      exact h.1
    rw [List.cons_append] at hlength ⊢
    rw [ofText_of_isNameStart _ hc, word]
    simp only [hlength]
    rw [← List.cons_append, Text.upTo_append]

theorem opens_word {w rest : List Char} (h : isNameText w = true) (hrest : BreaksName rest) :
    Opens (w ++ rest)
      (.verbatim ((Kind.keyword? (String.ofList w)).getD .identifier) (byteLength w)
        (w ++ rest)) := by
  have hblank : afterBlank (w ++ rest) = w ++ rest := by
    cases w with
    | nil => cases h
    | cons c cs =>
      refine afterBlank_of_ne _ ?_
      rintro rfl
      cases h
  refine ⟨by rw [hblank, ofText_word h hrest], ?_, rfl, rfl⟩
  cases hk : Kind.keyword? (String.ofList w) with
  | none => rfl
  | some k =>
    have hall : ∀ entry ∈ Kind.words, entry.2.isTrivia = false := by decide
    exact hall _ (Kind.mem_words_of_keyword? hk)

/-! ### Signs -/

/-- A token that is its spelling. -/
def mark (k : Kind) : Lexeme := { kind := k, length := byteLength k.spelling }

@[simp] theorem kind_mark (k : Kind) : (mark k).kind = k := rfl

/-- The character after a sign makes another token of it: a longer sign, a comment or a number. -/
def Extends (k : Kind) (c : Char) : Prop :=
  c ∈ extenders wholeMarks k ∨ (k = .slash ∧ (c = '/' ∨ c = '*')) ∨ (k = .dot ∧ c.isDigit = true)

instance (k : Kind) (c : Char) : Decidable (Extends k c) :=
  inferInstanceAs (Decidable (_ ∨ _ ∨ _))

/-- A sign that is read as it is spelled, whatever comes next that does not extend it. -/
def Readable (k : Kind) : Prop := k ∈ wholeMarks ∧ k ≠ .questionDot

instance (k : Kind) : Decidable (Readable k) := inferInstanceAs (Decidable (_ ∧ _))

/-- The point before a digit belongs to a number; no sign is read so that extends to none. -/
theorem not_number {k : Kind} (hk : k ∈ plainMarks) {c : Char} {w rest : List Char}
    (hw : k.spelling = c :: w) (h : ∀ c, rest.head? = some c → ¬ Extends k c) :
    ¬ (c = '.' ∧ (byteAt? 1 (c :: w ++ rest)).any Char.isDigit = true) := by
  rintro ⟨rfl, hany⟩
  have hall : ∀ k ∈ plainMarks, k.spelling.head? = some '.' →
      k = .dot ∨ k.spelling.tail.head? = some '.' := by decide
  obtain ⟨d, hd, hdigit⟩ := (Option.any_eq_true _ _).mp hany
  rw [List.cons_append, Text.byteAt?_succ_cons (c := '.') rfl] at hd
  obtain ⟨more, hmore⟩ := Text.exists_cons_of_byteAt? hd (utf8Size_of_isDigit hdigit)
  rcases hall k hk (by rw [hw]; rfl) with rfl | hsecond
  · obtain rfl : [] = w := (List.cons.inj hw).2
    rw [List.nil_append] at hmore
    exact h d (by rw [hmore]; rfl) (.inr (.inr ⟨rfl, hdigit⟩))
  · rw [hw, List.tail_cons] at hsecond
    obtain ⟨w, rfl⟩ := List.head?_eq_some_iff.mp hsecond
    obtain rfl : '.' = d := (List.cons.inj hmore).1
    cases hdigit

/-- Punctuation that is neither a slash nor the point of a number. -/
theorem ofText_plainMark {k : Kind} (hk : k ∈ plainMarks) {rest : List Char}
    (h : ∀ c, rest.head? = some c → ¬ Extends k c) :
    Lexeme.ofText (k.spelling ++ rest) = mark k := by
  have hall : ∀ k ∈ plainMarks, k ∈ marks ∧ k.spelling.head?.any fun c =>
      !isLineBreak c && !isInlineBlank c && c ≠ '/' := by decide
  obtain ⟨hmem, hfirst⟩ := hall k hk
  obtain ⟨c, w, hw, hc⟩ := exists_cons_of_any hfirst
  simp only [Bool.and_eq_true, Bool.not_eq_true', decide_eq_true_eq] at hc
  obtain ⟨⟨hline, hblank⟩, hslash⟩ := hc
  have hsign := punctuator?_mark hk hw fun d hd hmem => h d hd (.inl hmem)
  have hnumber := not_number hk hw h
  rw [hw]
  rw [List.cons_append] at hsign hnumber ⊢
  rw [Lexeme.ofText, hline, if_neg Bool.false_ne_true, hblank, if_neg Bool.false_ne_true,
    if_neg hslash, significant, if_neg hnumber, hsign]
  rw [mark, byteLength_spelling hmem]

/-- A slash that starts no comment. -/
theorem ofText_slash {k : Kind} (hk : k = .slash ∨ k = .slashEquals) {rest : List Char}
    (h : ∀ c, rest.head? = some c → ¬ Extends k c) :
    Lexeme.ofText (k.spelling ++ rest) = mark k := by
  rcases hk with rfl | rfl
  · have hnext (a : Char) (ha : a.utf8Size = 1) (hext : Extends .slash a) :
        byteAt? 1 ('/' :: rest) ≠ some a := by
      rw [Text.byteAt?_succ_cons (c := '/') rfl]
      exact byteAt?_ne_of_head? ha fun hhead => h a hhead hext
    have hline := hnext '/' rfl (by decide)
    have hblock := hnext '*' rfl (by decide)
    have hequals := hnext '=' rfl (by decide)
    change slash ('/' :: rest) = { kind := .slash, length := 1 }
    unfold slash
    split <;> simp_all
  · have hequals : byteAt? 1 ('/' :: '=' :: rest) = some '=' := by
      rw [Text.byteAt?_succ_cons (c := '/') rfl, Text.byteAt?_zero_cons rfl]
    change slash ('/' :: '=' :: rest) = { kind := .slashEquals, length := 2 }
    rw [slash, hequals]
    rfl

/-- A text starts with a sign if the character after it makes no other token of it. -/
theorem opens_mark {k : Kind} {rest : List Char} (hk : Readable k)
    (h : ∀ c, rest.head? = some c → ¬ Extends k c) : Opens (k.spelling ++ rest) (mark k) := by
  have hall : ∀ k ∈ wholeMarks, k ≠ .questionDot → k.spelling.head?.any (· ≠ ' ') ∧
      k.isTrivia = false ∧ (k ∈ plainMarks ∨ k = .slash ∨ k = .slashEquals) := by decide
  obtain ⟨hfirst, htrivia, hcases⟩ := hall k hk.1 hk.2
  obtain ⟨c, w, hw, hc⟩ := exists_cons_of_any hfirst
  refine ⟨?_, htrivia, rfl, rfl⟩
  rw [hw, List.cons_append, afterBlank_of_ne _ (by simpa using hc), ← List.cons_append, ← hw]
  rcases hcases with hplain | hslash
  · exact ofText_plainMark hplain h
  · exact ofText_slash hslash h

/-- Tokens that no character after them makes longer; a `>` is always a token of its own. -/
def closedMarks : List Kind :=
  [.openParen, .closeParen, .openBracket, .closeBracket, .comma, .semicolon, .plusPlus,
    .minusMinus, .tilde, .greaterThan]

theorem opens_closedMark {k : Kind} (hk : k ∈ closedMarks) (rest : List Char) :
    Opens (k.spelling ++ rest) (mark k) := by
  have hall : ∀ k ∈ closedMarks, Readable k ∧ extenders wholeMarks k = [] ∧ k ≠ .slash ∧
      k ≠ .dot := by decide
  obtain ⟨hreadable, hnil, hslash, hdot⟩ := hall k hk
  refine opens_mark hreadable fun c _ => ?_
  simp [Extends, hnil, hslash, hdot]

/-! ### What follows an operand -/

/-- The first token `l` of the text is, or is joined to, one of kind `k`, with `tail` after it. -/
inductive Joins (cs : List Char) (l : Lexeme) (k : Kind) (tail : List Char) : Prop where
  | whole (hk : l.kind = k) (htail : after l.length (afterBlank cs) = tail)
      (h : k = .greaterThan → joined? tail = none)
  | parts {n : Nat} (hl : l.kind = .greaterThan) (hcut : IsCut (afterBlank cs) l.length)
      (h : joined? (after l.length (afterBlank cs)) = some (k, n))
      (htail : after n (after l.length (afterBlank cs)) = tail)

/-- The operators with two operands that bind tighter than an assignment, without those that a
type may follow. -/
def tightOperators : List Kind :=
  [.questionQuestion, .orOr, .andAnd, .bar, .caret, .ampersand, .equalsEquals, .notEquals,
    .strictEquals, .strictNotEquals, .greaterThan, .lessEquals, .greaterEquals,
    .instanceofKeyword, .inKeyword, .shiftLeft, .shiftRight, .shiftRightUnsigned, .plus, .minus,
    .asterisk, .slash, .percent, .power]

/-- Operators that are printed between blanks. -/
def spacedMarks : List Kind := .question :: .colon :: Kind.assignments ++ tightOperators

/-- The ways in which an operator between blanks is read. -/
theorem spacedMarks_cases : ∀ k ∈ spacedMarks,
    (Readable k ∧ ¬ Extends k ' ' ∧ k ≠ .greaterThan) ∨
    (k.spelling.head? = some '>' ∧ k ∈ joinedMarks ∧ ' ' ∉ extenders joinedMarks k) ∨
    (isNameText k.spelling = true ∧ Kind.keyword? (String.ofList k.spelling) = some k) ∨
    k = .greaterThan := by decide +kernel

/-- An operator between blanks is read whole, or in parts if it starts with `>`. -/
theorem opens_spacedMark {k : Kind} (hk : k ∈ spacedMarks) (rest : List Char) :
    ∃ l, Opens (' ' :: (k.spelling ++ ' ' :: rest)) l ∧
      Joins (' ' :: (k.spelling ++ ' ' :: rest)) l k (' ' :: rest) := by
  have hall : ∀ k ∈ spacedMarks, k.spelling.head?.any (· ≠ ' ') = true := by decide
  obtain ⟨c, w, hw, hc⟩ := exists_cons_of_any (hall k hk)
  rw [decide_eq_true_eq] at hc
  have hblank {l : Lexeme} (h : Opens (k.spelling ++ ' ' :: rest) l) :
      Opens (' ' :: (k.spelling ++ ' ' :: rest)) l := by
    refine ⟨?_, h.isToken, h.noError, h.sameLine⟩
    rw [← h.ofText, hw, List.cons_append, afterBlank_of_ne _ hc]
    rfl
  have htail : after (byteLength k.spelling) (k.spelling ++ ' ' :: rest) = ' ' :: rest :=
    Text.after_append ..
  rcases spacedMarks_cases k hk with ⟨hr, hext, hne⟩ | ⟨hhead, hl, hext⟩ | ⟨hname, hword⟩ | rfl
  · have hopens : Opens (k.spelling ++ ' ' :: rest) (mark k) := opens_mark hr fun c hc => by
      obtain rfl := Option.some.inj hc
      exact hext
    exact ⟨_, hblank hopens, .whole rfl htail fun h => absurd h hne⟩
  · obtain rfl : c = '>' := by simpa [hw] using hhead
    have hopens : Opens (k.spelling ++ ' ' :: rest) (mark .greaterThan) := by
      rw [hw]
      exact opens_closedMark (k := .greaterThan) (by decide) (w ++ ' ' :: rest)
    have hrest : after (mark .greaterThan).length (k.spelling ++ ' ' :: rest) =
        w ++ ' ' :: rest := by
      rw [hw]
      exact Text.after_utf8Size '>' (w ++ ' ' :: rest)
    have hjoined : joined? (w ++ ' ' :: rest) = some (k, w.length) :=
      joined?_mark hl hw fun c hc => by
        obtain rfl := Option.some.inj hc
        exact hext
    have hmem : ∀ k ∈ joinedMarks, k ∈ marks := by decide
    have hlength : byteLength w = w.length := byteLength_of_utf8Size fun a ha =>
      (eq_of_mem_marks k (hmem k hl)).2.1 a (hw ▸ List.mem_cons_of_mem _ ha)
    refine ⟨_, hblank hopens, .parts (n := w.length) rfl ?_ ?_ ?_⟩
    · change IsCut (k.spelling ++ ' ' :: rest) 1
      rw [hw]
      exact Text.isCut_utf8Size '>' (w ++ ' ' :: rest)
    · exact hrest.symm ▸ hjoined
    · change after w.length (after (mark .greaterThan).length (k.spelling ++ ' ' :: rest)) = _
      rw [hrest, ← hlength, Text.after_append]
  · have hbreaks : BreaksName (' ' :: rest) := fun c hc => by
      obtain rfl := Option.some.inj hc
      rfl
    have hopens := opens_word hname hbreaks
    rw [hword, Option.getD_some] at hopens
    refine ⟨_, hblank hopens, .whole rfl htail ?_⟩
    rintro rfl
    cases hname
  · exact ⟨_, hblank (opens_closedMark (by decide) _), .whole rfl htail fun _ => rfl⟩

/-- Signs that are printed right after an operand. -/
def closers : List Kind := [.closeParen, .closeBracket, .comma, .semicolon]

theorem closers_eq : ∀ k ∈ closers, k ∈ closedMarks ∧ k ≠ .greaterThan ∧
    ∃ c, k.spelling = [c] ∧ c ≠ ' ' ∧ isNamePart c = false := by
  have hall : ∀ k ∈ closers, k ∈ closedMarks ∧ k ≠ .greaterThan ∧
      k.spelling = [k.spelling.headD ' '] ∧ k.spelling.headD ' ' ≠ ' ' ∧
      isNamePart (k.spelling.headD ' ') = false := by decide
  intro k hk
  obtain ⟨hclosed, hne, hspelling⟩ := hall k hk
  exact ⟨hclosed, hne, _, hspelling⟩

/-- What stands after an operand: the token `k`, with `tail` after it. -/
inductive Follows : List Char → Kind → List Char → Prop where
  | closer {k : Kind} (hk : k ∈ closers) (tail : List Char) : Follows (k.spelling ++ tail) k tail
  | spaced {k : Kind} (hk : k ∈ spacedMarks) (tail : List Char) :
      Follows (' ' :: (k.spelling ++ ' ' :: tail)) k (' ' :: tail)

namespace Follows

variable {cs tail : List Char} {k : Kind}

theorem exists_opens (h : Follows cs k tail) : ∃ l, Opens cs l ∧ Joins cs l k tail := by
  cases h with
  | closer hk =>
    obtain ⟨hclosed, hne, c, hc, hblank, -⟩ := closers_eq k hk
    refine ⟨_, opens_closedMark hclosed tail, .whole rfl ?_ fun h => absurd h hne⟩
    exact after_afterBlank (by rw [hc]; simpa using hblank) tail
  | spaced hk => exact opens_spacedMark hk _

theorem breaksName (h : Follows cs k tail) : BreaksName cs := by
  intro c hc
  cases h with
  | @closer k hk =>
    obtain ⟨-, -, d, hd, -, hpart⟩ := closers_eq k hk
    rw [hd] at hc
    obtain rfl := Option.some.inj hc
    exact hpart
  | spaced hk =>
    obtain rfl := Option.some.inj hc
    rfl

end Follows

/-! ### No arrows -/

/-- The text holds no `=>`, whatever stands before it. -/
def Inert (cs : List Char) : Prop := ('=' :: cs).IsChain fun c d => d = '>' → c ≠ '='

instance (cs : List Char) : Decidable (Inert cs) := inferInstanceAs (Decidable (List.IsChain _ _))

namespace Inert

variable {as bs cs : List Char}

theorem append (ha : Inert as) (hb : Inert bs) : Inert (as ++ bs) := by
  refine List.isChain_append.mpr ⟨ha, hb.tail, fun c _ d hd => ?_⟩
  intro hgt
  cases bs with
  | nil => cases hd
  | cons b bs =>
    obtain rfl : b = d := Option.some.inj hd
    exact absurd rfl ((List.isChain_cons_cons.mp hb).1 hgt)

theorem of_notMem (h : '>' ∉ cs) : Inert cs := by
  refine List.isChain_iff_getElem.mpr fun i hi hgt => ?_
  exact absurd (hgt ▸ List.getElem_mem _) h

theorem cons {c : Char} (hc : c ≠ '>') (h : Inert cs) : Inert (c :: cs) := by
  have hone : Inert [c] := of_notMem (by simpa using hc.symm)
  exact hone.append h

theorem not_prefix (h : Inert cs) (hbs : bs <:+ cs) : ¬ ['=', '>'] <+: bs := by
  intro hstart
  have hwithin := (hstart.isInfix.trans hbs.isInfix).trans (List.suffix_cons '=' cs).isInfix
  have hchain := h.infix hwithin
  exact absurd rfl ((List.isChain_cons_cons.mp hchain).1 rfl)

end Inert

end Unchain.Token
