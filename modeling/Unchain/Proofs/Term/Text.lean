import Unchain.Proofs.Term.Basic

/-!
# How the text of a term starts

The first token of a term (`Term.exists_opens`), the second one after a name
(`Term.exists_opens_second`), and what the text does not hold: no `=>` stands in
it (`Term.inert_text`), so nothing in it is read as an arrow.
-/

namespace Unchain.Term

open Printer
open Token

variable {e : Term} {rest : List Char}

/-! ### Continuations -/

theorem breaksName_cons {c : Char} (h : isNamePart c = false) (cs : List Char) :
    BreaksName (c :: cs) := by
  intro d hd
  obtain rfl := Option.some.inj hd
  exact h

/-- An operator follows its left side. -/
theorem follows_infixText (operator : { k // k ∈ operators }) (cs : List Char) :
    Follows (infixText operator ++ cs) operator (' ' :: cs) := by
  unfold infixText
  split
  · next h =>
    rw [h]
    exact .closer (k := .comma) (by decide) (' ' :: cs)
  · next h =>
    have hmem : ∀ k ∈ operators, k ≠ .comma → k ∈ spacedMarks := by decide
    simpa using Follows.spaced (hmem operator operator.property h) cs

theorem follows_question (cs : List Char) :
    Follows (' ' :: '?' :: ' ' :: cs) .question (' ' :: cs) :=
  .spaced (k := .question) (by decide) cs

theorem follows_colon (cs : List Char) :
    Follows (' ' :: ':' :: ' ' :: cs) .colon (' ' :: cs) :=
  .spaced (k := .colon) (by decide) cs

/-- A sign comes after its operand. -/
theorem opens_suffix (sign : { k // k ∈ suffixes }) (cs : List Char) :
    Opens (sign.val.spelling ++ cs) (mark sign) ∧ BreaksName (sign.val.spelling ++ cs) := by
  have hall : ∀ k ∈ suffixes, k ∈ closedMarks ∧ k.spelling.head?.any (!isNamePart ·) = true := by
    decide
  obtain ⟨hclosed, hhead⟩ := hall sign sign.property
  refine ⟨opens_closedMark hclosed cs, ?_⟩
  obtain ⟨c, w, hw, hc⟩ := exists_cons_of_any hhead
  rw [hw, List.cons_append]
  exact breaksName_cons (by simpa using hc) _

theorem opens_paren (cs : List Char) : Opens ('(' :: cs) (mark .openParen) :=
  opens_closedMark (k := .openParen) (by decide) cs

theorem opens_bracket (cs : List Char) : Opens ('[' :: cs) (mark .openBracket) :=
  opens_closedMark (k := .openBracket) (by decide) cs

/-! ### First characters -/

/-- A character that the text of a term can start with. -/
def startsTerm (c : Char) : Bool := isNameStart c || ['(', '+', '-', '~', '!'].contains c

theorem exists_cons_name (x : PlainName) :
    ∃ c cs, x.text.toList = c :: cs ∧ isNameStart c = true := by
  have hx := x.isName
  rw [isName] at hx
  cases h : x.text.toList with
  | nil => rw [h] at hx; cases hx
  | cons c cs =>
    rw [h, isNameText, Bool.and_eq_true] at hx
    exact ⟨c, cs, rfl, hx.1⟩

theorem exists_cons_word (kind : { k // k ∈ words }) :
    ∃ c cs, (Env.unaryWord kind).toList = c :: cs ∧ isNameStart c = true := by
  have hall : ∀ k ∈ words, (Env.unaryWord k).toList.head?.any isNameStart = true := by decide
  exact exists_cons_of_any (hall kind kind.property)

/-- The text of a term starts with a name, a parenthesis or a sign. -/
theorem exists_cons (h : e.Tight) : ∃ c cs, e.text = c :: cs ∧ startsTerm c = true := by
  have happend {a : List Char} (b : List Char) (h : ∃ c cs, a = c :: cs ∧ startsTerm c = true) :
      ∃ c cs, a ++ b = c :: cs ∧ startsTerm c = true := by
    obtain ⟨c, cs, rfl, hc⟩ := h
    exact ⟨c, cs ++ b, rfl, hc⟩
  induction h with
  | name x =>
    obtain ⟨c, cs, hx, hc⟩ := exists_cons_name x
    exact ⟨c, cs, by simpa [text] using hx, by simp [startsTerm, hc]⟩
  | binary _ _ _ _ ih => simpa only [text] using happend _ ih
  | conditional _ _ _ _ _ _ ih => simpa only [text] using happend _ ih
  | @prefixed sign _ _ _ =>
    have hall : ∀ k ∈ signs, k.spelling.head?.any startsTerm = true := by decide
    simpa only [text] using happend _ (exists_cons_of_any (hall sign sign.property))
  | suffixed _ _ ih => simpa only [text] using happend _ ih
  | @word kind _ _ _ =>
    obtain ⟨c, cs, hword, hc⟩ := exists_cons_word kind
    simpa only [text] using happend _ ⟨c, cs, hword, by simp [startsTerm, hc]⟩
  | call _ _ _ _ ih => simpa only [text] using happend _ ih
  | property _ _ ih => simpa only [text] using happend _ ih
  | element _ _ _ ih => simpa only [text] using happend _ ih
  | parenthesized _ => exact ⟨'(', _, by rw [text], rfl⟩

/-- Only a sign before it starts the text of an operand of a sign with a sign. -/
theorem exists_cons_operand (h : e.Tight) (hl : Level.unary ≤ e.level)
    (hsign : ∀ sign operand, e ≠ .prefixed sign operand) :
    ∃ c cs, e.text = c :: cs ∧ (isNameStart c = true ∨ c = '(') := by
  have happend {a : List Char} (b : List Char)
      (h : ∃ c cs, a = c :: cs ∧ (isNameStart c = true ∨ c = '(')) :
      ∃ c cs, a ++ b = c :: cs ∧ (isNameStart c = true ∨ c = '(') := by
    obtain ⟨c, cs, rfl, hc⟩ := h
    exact ⟨c, cs ++ b, rfl, hc⟩
  -- No term with a sign before it is the left side of an access or a call.
  have hleft {x : Term} (hx : Level.leftHand ≤ x.level) : Level.unary ≤ x.level ∧
      ∀ sign operand, x ≠ .prefixed sign operand := by
    refine ⟨Nat.le_trans (by decide) hx, ?_⟩
    rintro sign operand rfl
    exact absurd hx (show ¬ Level.leftHand ≤ Level.unary by decide)
  induction h with
  | name x =>
    obtain ⟨c, cs, hx, hc⟩ := exists_cons_name x
    exact ⟨c, cs, by simpa [text] using hx, .inl hc⟩
  | @binary _ _ operator =>
    exact absurd (Nat.le_trans hl (operator_level_le operator)) (by decide)
  | conditional => exact absurd hl (show ¬ Level.unary ≤ Level.conditional by decide)
  | prefixed => exact absurd rfl (hsign _ _)
  | suffixed _ hx ih => simpa only [text] using happend _ (ih (hleft hx).1 (hleft hx).2)
  | @word kind _ _ _ =>
    obtain ⟨c, cs, hword, hc⟩ := exists_cons_word kind
    simpa only [text] using happend _ ⟨c, cs, hword, .inl hc⟩
  | call _ hx _ _ ih => simpa only [text] using happend _ (ih (hleft hx).1 (hleft hx).2)
  | property _ hx ih => simpa only [text] using happend _ (ih (hleft hx).1 (hleft hx).2)
  | element _ hx _ ih => simpa only [text] using happend _ (ih (hleft hx).1 (hleft hx).2)
  | parenthesized _ => exact ⟨'(', _, by rw [text], .inr rfl⟩

/-! ### First tokens -/

/-- A sign before an operand is read as it stands. -/
theorem opens_prefixed {sign : { k // k ∈ signs }} (h : e.Tight) (hl : Level.unary ≤ e.level)
    (cs : List Char) :
    Opens (sign.val.spelling ++ (gap sign e ++ (e.text ++ cs))) (mark sign) := by
  have hreadable : ∀ k ∈ signs, Readable k := by decide
  have hblank : ∀ k ∈ signs, ¬ Extends k ' ' := by decide
  have hparen : ∀ k ∈ signs, ¬ Extends k '(' := by decide
  have hname : ∀ k ∈ signs, k ≠ .slash ∧ k ≠ .dot ∧
      (extenders wholeMarks k).all (!isNameStart ·) = true := by decide
  have hsigns : ∀ k ∈ signs, ∀ inner ∈ signs, Env.fuses k inner = false →
      inner.spelling.head?.any (¬ Extends k ·) = true := by decide
  refine opens_mark (hreadable sign sign.property) fun c hc => ?_
  by_cases hprefixed : ∃ inner operand, e = .prefixed inner operand
  · obtain ⟨inner, operand, rfl⟩ := hprefixed
    simp only [gap, text] at hc
    split at hc
    · obtain rfl := Option.some.inj hc
      exact hblank sign sign.property
    · next hfuses =>
      obtain ⟨d, w, hd, hextends⟩ := exists_cons_of_any
        (hsigns sign sign.property inner inner.property (by simpa using hfuses))
      rw [hd] at hc
      obtain rfl : d = c := Option.some.inj hc
      simpa using hextends
  · obtain ⟨d, w, htext, hd⟩ := exists_cons_operand h hl fun inner operand heq =>
      hprefixed ⟨inner, operand, heq⟩
    have hgap : gap sign e = [] := by
      cases e with
      | prefixed inner operand => exact absurd ⟨inner, operand, rfl⟩ hprefixed
      | _ => rfl
    rw [hgap, htext] at hc
    obtain rfl : d = c := Option.some.inj hc
    obtain ⟨hslash, hdot, hall⟩ := hname sign sign.property
    rcases hd with hd | rfl
    · rintro (hmem | ⟨heq, -⟩ | ⟨heq, -⟩)
      · simpa [hd] using List.all_eq_true.mp hall _ hmem
      · exact hslash heq
      · exact hdot heq
    · exact hparen sign sign.property

theorem opens_name (x : PlainName) (hrest : BreaksName rest) :
    Opens (x.text.toList ++ rest)
      (.verbatim .identifier (Text.byteLength x.text.toList) (x.text.toList ++ rest)) := by
  have h := opens_word x.isName hrest
  rwa [String.ofList_toList, x.isPlain, Option.getD_none] at h

/-- The keyword of a word before an operand. -/
def keyword : Syntax.UnaryKind → Kind
  | .typeof => .typeofKeyword
  | .void => .voidKeyword
  | .delete => .deleteKeyword
  | _ => .awaitKeyword

theorem opens_keyword (kind : { k // k ∈ words }) (hrest : BreaksName rest) :
    Opens ((Env.unaryWord kind).toList ++ rest) (.verbatim (keyword kind)
      (Text.byteLength (Env.unaryWord kind).toList) ((Env.unaryWord kind).toList ++ rest)) := by
  have hall : ∀ k ∈ words, isNameText (Env.unaryWord k).toList = true ∧
      Kind.keyword? (Env.unaryWord k) = some (keyword k) := by decide
  obtain ⟨hname, hword⟩ := hall kind kind.property
  have h := opens_word hname hrest
  rwa [String.ofList_toList, hword, Option.getD_some] at h

/-- Kinds of tokens that a term can start with. -/
def starters : List Kind :=
  [.identifier, .openParen, .plus, .minus, .tilde, .exclamation, .plusPlus, .minusMinus,
    .typeofKeyword, .voidKeyword, .deleteKeyword, .awaitKeyword]

/-- The text of a term starts with a token that starts terms. -/
theorem exists_opens (h : e.Tight) (hrest : BreaksName rest) :
    ∃ l, Opens (e.text ++ rest) l ∧ l.kind ∈ starters := by
  induction h generalizing rest with
  | name x =>
    exact ⟨_, by simpa only [text] using opens_name x hrest,
      show Kind.identifier ∈ starters by decide⟩
  | @binary _ _ operator _ _ _ _ ih =>
    simpa [text] using ih (follows_infixText operator _).breaksName
  | conditional _ _ _ _ _ _ ih => simpa [text] using ih (follows_question _).breaksName
  | @prefixed sign operand hoperand hl =>
    have hall : ∀ k ∈ signs, k ∈ starters := by decide
    exact ⟨_, by simpa [text] using opens_prefixed hoperand hl rest, hall sign sign.property⟩
  | @suffixed sign _ _ _ ih => simpa [text] using ih (opens_suffix sign rest).2
  | @word kind operand _ _ =>
    have hall : ∀ k ∈ words, keyword k ∈ starters := by decide
    have h := opens_keyword kind (breaksName_cons (c := ' ') (by decide) (operand.text ++ rest))
    exact ⟨_, by simpa [text] using h, hall kind kind.property⟩
  | call _ _ _ _ ih => simpa [text] using ih (breaksName_cons (c := '(') (by decide) _)
  | property _ _ ih => simpa [text] using ih (breaksName_cons (c := '.') (by decide) _)
  | element _ _ _ ih => simpa [text] using ih (breaksName_cons (c := '[') (by decide) _)
  | parenthesized _ =>
    exact ⟨_, by simpa [text] using opens_paren _, show Kind.openParen ∈ starters by decide⟩

/-- The text of an operand of a suffix starts with a name or a parenthesis, and so does the text
with the suffix. -/
theorem kind_of_suffix {l : Lexeme} (h : e.Tight) (hl : Level.suffix ≤ e.level)
    (hopens : Opens (e.text ++ rest) l) (hbreaks : BreaksName rest) :
    l.kind = .identifier ∨ l.kind = .openParen := by
  have hleft {x : Term} (hx : Level.leftHand ≤ x.level) : Level.suffix ≤ x.level :=
    Nat.le_trans (by decide) hx
  induction h generalizing rest with
  | name x =>
    obtain rfl := hopens.eq (opens_name x hbreaks)
    exact .inl rfl
  | binary => exact absurd (Nat.le_trans hl (operator_level_le _)) (by decide)
  | conditional => exact absurd hl (show ¬ Level.suffix ≤ Level.conditional by decide)
  | prefixed => exact absurd hl (show ¬ Level.suffix ≤ Level.unary by decide)
  | @suffixed sign _ _ hx ih =>
    simp only [text, List.append_assoc] at hopens
    exact ih (hleft hx) hopens (opens_suffix sign rest).2
  | word => exact absurd hl (show ¬ Level.suffix ≤ Level.unary by decide)
  | call _ hx _ _ ih =>
    simp only [text, List.append_assoc, List.cons_append] at hopens
    exact ih (hleft hx) hopens (breaksName_cons (by decide) _)
  | property _ hx ih =>
    simp only [text, List.append_assoc, List.cons_append] at hopens
    exact ih (hleft hx) hopens (breaksName_cons (by decide) _)
  | element _ hx _ ih =>
    simp only [text, List.append_assoc, List.cons_append] at hopens
    exact ih (hleft hx) hopens (breaksName_cons (by decide) _)
  | parenthesized _ =>
    simp only [text, List.append_assoc, List.cons_append] at hopens
    obtain rfl := hopens.eq (opens_paren _)
    exact .inr rfl

/-- No blank stands before a term. -/
theorem afterBlank_text (h : e.Tight) (rest : List Char) :
    afterBlank (e.text ++ rest) = e.text ++ rest := by
  obtain ⟨c, cs, htext, hc⟩ := exists_cons h
  rw [htext, List.cons_append]
  refine afterBlank_of_ne _ ?_
  rintro rfl
  exact absurd hc (by decide)

/-! ### The token after a name -/

theorem opens_dot (x : PlainName) (cs : List Char) :
    Opens ('.' :: (x.text.toList ++ cs)) (mark .dot) := by
  have hreadable : Readable .dot := by decide
  have hextenders : (extenders wholeMarks .dot).all (!isNameStart ·) = true := by decide
  obtain ⟨c, w, hx, hc⟩ := exists_cons_name x
  refine opens_mark (k := .dot) hreadable fun d hd => ?_
  rw [hx] at hd
  obtain rfl : c = d := Option.some.inj hd
  rintro (hmem | ⟨heq, -⟩ | ⟨-, hdigit⟩)
  · simpa [hc] using List.all_eq_true.mp hextenders c hmem
  · cases heq
  · rw [isDigit_of_isNameStart hc] at hdigit
    cases hdigit

/-- What follows an operand of another kind than a colon starts with no colon. -/
theorem ne_colon_of_follows {cs tail : List Char} {k : Kind} (h : Follows cs k tail)
    (hk : k ≠ .colon) : ∃ l, Opens cs l ∧ l.kind ≠ .colon := by
  obtain ⟨l, hopens, hjoins⟩ := h.exists_opens
  refine ⟨l, hopens, ?_⟩
  cases hjoins with
  | whole hl => rwa [hl]
  | parts hl => rw [hl]; decide

/-- No colon follows a name that a term starts with, so it is no label. -/
theorem exists_opens_second {l : Lexeme} (h : e.Tight) (hopens : Opens (e.text ++ rest) l)
    (hk : l.kind = .identifier) (hbreaks : BreaksName rest)
    (hrest : ∃ l', Opens rest l' ∧ l'.kind ≠ .colon) :
    ∃ l', Opens (Text.after l.length (e.text ++ rest)) l' ∧ l'.kind ≠ .colon := by
  induction h generalizing rest with
  | name x =>
    obtain rfl := hopens.eq (opens_name x hbreaks)
    simpa [text, Lexeme.verbatim] using hrest
  | @binary _ _ operator _ _ _ _ ih =>
    have hne : ∀ k ∈ operators, k ≠ .colon := by decide
    have hfollows := follows_infixText operator
    simp only [text, List.append_assoc] at hopens ⊢
    exact ih hopens (hfollows _).breaksName
      (ne_colon_of_follows (hfollows _) (hne operator operator.property))
  | conditional _ _ _ _ _ _ ih =>
    simp only [text, List.append_assoc, List.cons_append] at hopens ⊢
    exact ih hopens (follows_question _).breaksName
      (ne_colon_of_follows (follows_question _) (by decide))
  | @prefixed sign operand hoperand hl =>
    have hne : ∀ k ∈ signs, k ≠ .identifier := by decide
    simp only [text, List.append_assoc] at hopens
    obtain rfl := hopens.eq (opens_prefixed hoperand hl rest)
    exact absurd hk (hne sign sign.property)
  | @suffixed sign _ _ _ ih =>
    have hne : ∀ k ∈ suffixes, k ≠ .colon := by decide
    obtain ⟨hopens', hbreaks'⟩ := opens_suffix sign rest
    simp only [text, List.append_assoc] at hopens ⊢
    exact ih hopens hbreaks' ⟨_, hopens', hne sign sign.property⟩
  | @word kind operand _ _ =>
    have hne : ∀ k ∈ words, keyword k ≠ .identifier := by decide
    simp only [text, List.append_assoc, List.cons_append] at hopens
    obtain rfl := hopens.eq (opens_keyword kind (breaksName_cons (by decide) _))
    exact absurd hk (hne kind kind.property)
  | call _ _ _ _ ih =>
    simp only [text, List.append_assoc, List.cons_append] at hopens ⊢
    exact ih hopens (breaksName_cons (by decide) _)
      ⟨_, opens_paren _, show Kind.openParen ≠ .colon by decide⟩
  | @property _ x _ _ ih =>
    simp only [text, List.append_assoc, List.cons_append] at hopens ⊢
    exact ih hopens (breaksName_cons (by decide) _)
      ⟨_, opens_dot x _, show Kind.dot ≠ .colon by decide⟩
  | element _ _ _ ih =>
    simp only [text, List.append_assoc, List.cons_append] at hopens ⊢
    exact ih hopens (breaksName_cons (by decide) _)
      ⟨_, opens_bracket _, show Kind.openBracket ≠ .colon by decide⟩
  | parenthesized _ =>
    simp only [text, List.append_assoc, List.cons_append] at hopens
    obtain rfl := hopens.eq (opens_paren _)
    exact absurd hk (show Kind.openParen ≠ .identifier by decide)

/-! ### No arrows -/

theorem inert_name (x : PlainName) : Inert x.text.toList := by
  refine .of_notMem fun hmem => ?_
  have hx := isNamePart_of_isNameText (w := x.text.toList) x.isName _ hmem
  cases hx

mutual

/-- No `=>` stands in the text of a term. -/
theorem inert_text : ∀ e : Term, Inert e.text
  | .name x => by simpa only [text] using inert_name x
  | .binary left operator right => by
    have hall : ∀ k ∈ operators, Inert (infixText k) := by decide
    rw [text]
    exact (inert_text left).append ((hall operator operator.property).append (inert_text right))
  | .conditional condition whenTrue whenFalse => by
    have hfalse : Inert (' ' :: ':' :: ' ' :: whenFalse.text) :=
      .cons (by decide) (.cons (by decide) (.cons (by decide) (inert_text whenFalse)))
    rw [text]
    exact (inert_text condition).append (.cons (by decide) (.cons (by decide) (.cons (by decide)
      ((inert_text whenTrue).append hfalse))))
  | .prefixed sign operand => by
    have hall : ∀ k ∈ signs, Inert k.spelling := by decide
    have hgap : Inert (gap sign operand) := by
      unfold gap
      split
      · split
        · exact .of_notMem (by decide)
        · exact .of_notMem (by decide)
      · exact .of_notMem (by decide)
    rw [text]
    exact (hall sign sign.property).append (hgap.append (inert_text operand))
  | .suffixed sign operand => by
    have hall : ∀ k ∈ suffixes, Inert k.spelling := by decide
    rw [text]
    exact (inert_text operand).append (hall sign sign.property)
  | .word kind operand => by
    have hall : ∀ k ∈ words, Inert (Env.unaryWord k).toList := by decide
    rw [text]
    exact (hall kind kind.property).append (.cons (by decide) (inert_text operand))
  | .call callee arguments => by
    rw [text]
    exact (inert_text callee).append (.cons (by decide)
      ((inert_argumentsText arguments).append (.of_notMem (by decide))))
  | .property e member => by
    rw [text]
    exact (inert_text e).append (.cons (by decide) (inert_name member))
  | .element e index => by
    rw [text]
    exact (inert_text e).append (.cons (by decide)
      ((inert_text index).append (.of_notMem (by decide))))
  | .parenthesized e => by
    rw [text]
    exact .cons (by decide) ((inert_text e).append (.of_notMem (by decide)))

theorem inert_argumentsText : ∀ arguments : List Term, Inert (argumentsText arguments)
  | [] => .of_notMem (by simp [argumentsText])
  | [a] => by simpa only [argumentsText] using inert_text a
  | a :: b :: rest => by
    rw [argumentsText]
    exact (inert_text a).append (.cons (by decide) (.cons (by decide)
      (inert_argumentsText (b :: rest))))

end

end Unchain.Term
