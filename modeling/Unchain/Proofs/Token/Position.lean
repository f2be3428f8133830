import Unchain.Proofs.Token.Names
import Unchain.Token.Scanner

/-!
# Where a scanner stands

Every token of a text that is not at its end has a character, a token whose kind
has a spelling is written so, and one that the grammar takes for a name may be
bound (`Lexeme.Fits`). A scanner cuts its text
before and after the current token (`Cursor.OnToken`), whether the token was
reached by a scan or read again in another way: a scan never goes back, and at
the end of the text it stays there.
-/

namespace Unchain.Token

open Text (IsCut after byteAt? byteLength upTo)

/-- What every token has in common that is read at the start of `cs`. -/
structure Lexeme.Fits (l : Lexeme) (cs : List Char) : Prop where
  ends : l.kind = .endOfFile ↔ cs = []
  isCut : IsCut cs l.length
  length_pos : cs ≠ [] → 0 < l.length
  spelled : ∀ w, l.kind.spelling? = some w → upTo l.length cs = w.toList
  mayBind : l.kind.isIdentifierLike = true → MayBind (String.ofList l.value)

/-! ### Tokens with a spelling -/

theorem Kind.ne_endOfFile_of_spelling? {k : Kind} {w : String} (h : k.spelling? = some w) :
    k ≠ .endOfFile := by
  rintro rfl
  cases h

theorem Kind.spelling_of_spelling? {k : Kind} {w : String} (h : k.spelling? = some w) :
    k.spelling = w.toList := by
  rw [Kind.spelling, h, Option.getD_some]

/-- Signs are written in one or more bytes below 128. -/
theorem eq_of_mem_marks : ∀ k ∈ marks, k.spelling ≠ [] ∧ (∀ a ∈ k.spelling, a.utf8Size = 1) ∧
    k ≠ .endOfFile ∧ k.isIdentifierLike = false := by
  have hall : ∀ k ∈ marks, k.spelling ≠ [] ∧ k.spelling.all (·.utf8Size = 1) = true ∧
      k ≠ .endOfFile ∧ k.isIdentifierLike = false := by decide
  intro k hk
  obtain ⟨hne, hsize, hrest⟩ := hall k hk
  exact ⟨hne, fun a ha => of_decide_eq_true (List.all_eq_true.mp hsize a ha), hrest⟩

theorem byteLength_of_utf8Size {w : List Char} (h : ∀ a ∈ w, a.utf8Size = 1) :
    byteLength w = w.length := by
  induction w with
  | nil => rfl
  | cons a w ih =>
    obtain ⟨ha, hw⟩ := List.forall_mem_cons.mp h
    rw [Text.byteLength_cons, ha, ih hw, List.length_cons, Nat.add_comm]

theorem byteLength_spelling {k : Kind} (hk : k ∈ marks) :
    byteLength k.spelling = k.spelling.length :=
  byteLength_of_utf8Size (eq_of_mem_marks k hk).2.1

/-- A sign that the text starts with. -/
theorem fits_of_prefix {k : Kind} {cs : List Char} {n : Nat} (hk : k ∈ marks)
    (h : k.spelling <+: cs) (hn : k.spelling.length = n) :
    ({ kind := k, length := n } : Lexeme).Fits cs := by
  obtain ⟨hne, -, hend, hname⟩ := eq_of_mem_marks k hk
  obtain ⟨rest, rfl⟩ := h
  rw [← hn, ← byteLength_spelling hk]
  refine ⟨?_, Text.isCut_iff.mpr ⟨_, _, rfl, rfl⟩, fun _ => ?_, fun w hw => ?_,
    fun h => nomatch hname.symm.trans h⟩
  · simp [hend, hne]
  · rw [byteLength_spelling hk]
    exact List.length_pos_iff.mpr hne
  · rw [Text.upTo_append, Kind.spelling_of_spelling? hw]

/-! ### Every way to read a token -/

/-- A token of a kind without a spelling, which is no name, only has to be one of a character or
more. -/
theorem Lexeme.fits_of_unspelled {l : Lexeme} {c : Char} {rest : List Char}
    (hk : l.kind ≠ .endOfFile) (hcut : IsCut (c :: rest) l.length) (hpos : 0 < l.length)
    (hs : l.kind.spelling? = none) (hn : l.kind.isIdentifierLike = false) :
    l.Fits (c :: rest) where
  ends := by simp [hk]
  isCut := hcut
  length_pos _ := hpos
  spelled w h := by simp [hs] at h
  mayBind h := nomatch hn.symm.trans h

/-- A sign starts with the character that it was found by. -/
theorem head?_of_punctuator? {c : Char} {next next2 : Option Char} {k : Kind} {n : Nat}
    (h : punctuator? c next next2 = some (k, n)) : k.spelling.head? = some c := by
  obtain ⟨hk, hn, hbytes⟩ := punctuator?_eq_some h
  obtain ⟨a, w, hw⟩ := List.exists_cons_of_ne_nil (eq_of_mem_marks k hk).1
  obtain ⟨n, rfl⟩ : ∃ m, n = m + 1 := ⟨w.length, by rw [← hn, hw, List.length_cons]⟩
  rw [hw, List.map_cons, List.take_succ_cons] at hbytes
  rw [hw, List.head?_cons, (List.cons.inj hbytes).1]

/-- Punctuation is what its bytes are. -/
theorem fits_of_punctuator? {c : Char} {rest : List Char} {k : Kind} {n : Nat}
    (h : punctuator? c (byteAt? 1 (c :: rest)) (byteAt? 2 (c :: rest)) = some (k, n)) :
    ({ kind := k, length := n } : Lexeme).Fits (c :: rest) := by
  obtain ⟨hk, hn, hbytes⟩ := punctuator?_eq_some h
  have hone := (eq_of_mem_marks k hk).2.1
  have hc : c.utf8Size = 1 := hone c (List.mem_of_mem_head? (head?_of_punctuator? h))
  refine fits_of_prefix hk (prefix_of_map_byteAt? (m := 3) (n := n) hone ?_) hn
  rw [hbytes, ← Text.byteAt?_zero_cons hc rest]
  rfl

/-- What follows a `>` and is joined to it. -/
theorem prefix_of_joined? {rest : List Char} {k : Kind} {n : Nat}
    (h : joined? rest = some (k, n)) :
    k ∈ marks ∧ k.spelling.length = 1 + n ∧ k.spelling <+: '>' :: rest := by
  obtain ⟨hk, hn, hbytes⟩ := greaterOperator?_eq_some h
  refine ⟨hk, hn, prefix_of_map_byteAt? (m := 4) (n := n + 1) (eq_of_mem_marks k hk).2.1 ?_⟩
  rw [hbytes, ← Text.byteAt?_succ_cons (c := '>') rfl 0, ← Text.byteAt?_succ_cons (c := '>') rfl 1,
    ← Text.byteAt?_succ_cons (c := '>') rfl 2, ← Text.byteAt?_zero_cons (c := '>') rfl rest]
  rfl

theorem le_digitsEnd (isDigit : Char → Bool) (cs : List Char) (n : Nat) :
    n ≤ digitsEnd isDigit cs n :=
  Nat.le_add_right _ _

theorem le_fractionEnd (cs : List Char) (n : Nat) : n ≤ fractionEnd cs n := by
  rw [fractionEnd]
  split
  · exact Nat.le_trans (Nat.le_succ n) (le_digitsEnd ..)
  · exact Nat.le_refl n

theorem le_exponentEnd (cs : List Char) (n : Nat) : n ≤ exponentEnd cs n := by
  have hsign : n ≤ signEnd cs (n + 1) := by
    rw [signEnd]
    split <;> omega
  rw [exponentEnd]
  dsimp only
  split
  · split
    · exact Nat.le_trans hsign (le_digitsEnd ..)
    · exact Nat.le_refl n
  · exact Nat.le_refl n

theorem numeralEnd_pos {c : Char} {rest : List Char}
    (h : c.isDigit ∨ c = '.' ∧ (byteAt? 1 (c :: rest)).any Char.isDigit) :
    0 < numeralEnd (c :: rest) := by
  -- A digit is counted with the whole part, a point with the fraction.
  have hdecimal : 0 < fractionEnd (c :: rest) (digitsEnd Char.isDigit (c :: rest) 0) := by
    rcases h with hc | ⟨rfl, -⟩
    · refine Nat.lt_of_lt_of_le ?_ (le_fractionEnd ..)
      rw [digitsEnd, Text.after_zero, digitBytes, hc, Bool.true_or, if_pos rfl]
      omega
    · have hnone : digitsEnd Char.isDigit ('.' :: rest) 0 = 0 := by
        simp [digitsEnd, digitBytes, Char.isDigit]
      rw [hnone, fractionEnd, if_pos (Text.byteAt?_zero_cons rfl rest)]
      exact Nat.lt_of_lt_of_le Nat.one_pos (le_digitsEnd ..)
  rw [numeralEnd]
  split
  · exact Nat.lt_of_lt_of_le Nat.two_pos (le_digitsEnd ..)
  · exact Nat.lt_of_lt_of_le hdecimal (le_exponentEnd ..)

theorem fits_number {c : Char} {rest : List Char}
    (h : c.isDigit ∨ c = '.' ∧ (byteAt? 1 (c :: rest)).any Char.isDigit) :
    (number (c :: rest)).Fits (c :: rest) := by
  have hpos := numeralEnd_pos h
  have hcut := isCut_numeralEnd (c :: rest)
  unfold number
  dsimp only
  split
  · next hn =>
    exact Lexeme.fits_of_unspelled (by simp [Lexeme.verbatim]) (hcut.succ hn rfl) (Nat.succ_pos _)
      rfl rfl
  · exact Lexeme.fits_of_unspelled (by simp [Lexeme.verbatim]) hcut hpos rfl rfl

theorem templatePart_kind (whole part : Kind) (cs : List Char) :
    (templatePart whole part cs).kind = whole ∨ (templatePart whole part cs).kind = part := by
  rw [templatePart]
  split
  · exact .inl rfl
  · exact .inr rfl
  · exact .inl rfl

theorem fits_templatePart {whole part : Kind} {c : Char} (hc : c.utf8Size = 1) (rest : List Char)
    (hkind : ∀ k ∈ [whole, part], k ≠ .endOfFile ∧ k.spelling? = none ∧
      k.isIdentifierLike = false) :
    (templatePart whole part (c :: rest)).Fits (c :: rest) := by
  have hmem : (templatePart whole part (c :: rest)).kind ∈ [whole, part] := by
    rcases templatePart_kind whole part (c :: rest) with h | h <;> simp [h]
  obtain ⟨hend, hspelling, hname⟩ := hkind _ hmem
  refine Lexeme.fits_of_unspelled hend (isCut_templatePart hc rest) ?_ hspelling hname
  rw [templatePart]
  split <;> dsimp only <;> omega

/-- A word is a keyword if it is spelled like one, and a name otherwise. -/
theorem fits_word {c : Char} {rest : List Char} (h : isNameStart c = true) :
    (word (c :: rest)).Fits (c :: rest) := by
  have hpos : 0 < (word (c :: rest)).length :=
    bytesWhile_pos rest (isNamePart_of_isNameStart h)
  have hcut : IsCut (c :: rest) (word (c :: rest)).length := isCut_bytesWhile isNamePart (c :: rest)
  have hkind := kind_word (c :: rest)
  cases hk : Kind.keyword? (String.ofList (word (c :: rest)).value) with
  | none =>
    rw [hk, Option.getD_none] at hkind
    refine ⟨by simp [hkind], hcut, fun _ => hpos, fun w hw => ?_, mayBind_word h⟩
    rw [hkind] at hw
    cases hw
  | some k =>
    have hs := Kind.spelling?_of_keyword? hk
    rw [hk, Option.getD_some] at hkind
    refine ⟨by simp [hkind, Kind.ne_endOfFile_of_spelling? hs], hcut, fun _ => hpos,
      fun w hw => ?_, mayBind_word h⟩
    rw [hkind] at hw
    obtain rfl := Option.some.inj (hs.symm.trans hw)
    exact String.toList_ofList.symm

theorem fits_privateName (rest : List Char) : (privateName ('#' :: rest)).Fits ('#' :: rest) := by
  have hcut : IsCut ('#' :: rest) (privateName ('#' :: rest)).length :=
    (Text.isCut_utf8Size '#' rest).add (isCut_bytesWhile _ _)
  refine Lexeme.fits_of_unspelled (by simp [privateName, Lexeme.verbatim]) hcut ?_ rfl rfl
  change 0 < 1 + _
  omega

theorem fits_wordOrLiteral (c : Char) (rest : List Char) :
    (wordOrLiteral c (c :: rest)).Fits (c :: rest) := by
  unfold wordOrLiteral
  split
  · next hquote =>
    have hc : c.utf8Size = 1 := by rcases hquote with rfl | rfl <;> rfl
    refine Lexeme.fits_of_unspelled (by simp [string]) (isCut_string hc rest) ?_ rfl rfl
    rw [string]
    dsimp only
    omega
  split
  · next hquote =>
    subst hquote
    exact fits_templatePart rfl rest (by decide)
  split
  · next hhash =>
    subst hhash
    split
    · exact fits_privateName rest
    · exact Lexeme.fits_of_unspelled (by simp) (Text.isCut_utf8Size '#' rest) Nat.one_pos rfl rfl
  split
  · next hdigit => exact fits_number (.inl hdigit)
  split
  · next hstart => exact fits_word hstart
  · exact Lexeme.fits_of_unspelled (by simp) (Text.isCut_utf8Size c rest) c.utf8Size_pos rfl rfl

theorem fits_significant (c : Char) (rest : List Char) :
    (significant c (c :: rest)).Fits (c :: rest) := by
  rw [significant]
  split
  · next hpoint => exact fits_number (.inr hpoint)
  split
  · next k n hsign => exact fits_of_punctuator? hsign
  · exact fits_wordOrLiteral c rest

theorem fits_slash (rest : List Char) : (slash ('/' :: rest)).Fits ('/' :: rest) := by
  rw [slash]
  split
  · next h =>
    have hcut := (isCut_two rfl rfl h).add (isCut_bytesWhile (!isLineBreak ·) _)
    have hpos : 0 < (lineComment ('/' :: rest)).length :=
      Nat.lt_of_lt_of_le Nat.two_pos (Nat.le_add_right _ _)
    exact Lexeme.fits_of_unspelled (by simp [lineComment]) hcut hpos rfl rfl
  · next h =>
    have hcut := (isCut_two rfl rfl h).add (isCut_commentBody _)
    have hpos : 0 < (blockComment ('/' :: rest)).length :=
      Nat.lt_of_lt_of_le Nat.two_pos (Nat.le_add_right _ _)
    exact Lexeme.fits_of_unspelled (by simp [blockComment]) hcut hpos rfl rfl
  · next h =>
    obtain ⟨rest, rfl⟩ : ∃ more, rest = '=' :: more :=
      Text.exists_cons_of_byteAt? (Text.byteAt?_succ_cons (c := '/') rfl 0 rest ▸ h) rfl
    exact fits_of_prefix (by decide) ⟨rest, rfl⟩ rfl
  · exact fits_of_prefix (by decide) ⟨rest, rfl⟩ rfl

theorem fits_newLine {c : Char} (rest : List Char) : (newLine c (c :: rest)).Fits (c :: rest) := by
  refine Lexeme.fits_of_unspelled (by simp [newLine]) ?_ ?_ rfl rfl
  · rw [newLine]
    dsimp only
    split
    · next h =>
      obtain ⟨rfl, hfeed⟩ := h
      exact isCut_two rfl rfl hfeed
    · exact Text.isCut_utf8Size c rest
  · rw [newLine]
    dsimp only
    split
    · exact Nat.two_pos
    · exact c.utf8Size_pos

/-- The token at the start of a text fits it. -/
theorem Lexeme.fits_ofText (cs : List Char) : (Lexeme.ofText cs).Fits cs := by
  unfold Lexeme.ofText
  split
  · exact ⟨by simp, Text.isCut_zero _, by simp,
      fun w hw => absurd rfl (Kind.ne_endOfFile_of_spelling? hw), nofun⟩
  · next c rest =>
    split
    · exact fits_newLine rest
    split
    · next hblank =>
      exact fits_of_unspelled (by simp) (isCut_bytesWhile _ _) (bytesWhile_pos rest hblank) rfl rfl
    split
    · next hslash =>
      subst hslash
      exact fits_slash rest
    · exact fits_significant c rest

theorem fits_regex {c : Char} (hc : c.utf8Size = 1) (rest : List Char) :
    (Lexeme.regex (c :: rest)).Fits (c :: rest) := by
  refine Lexeme.fits_of_unspelled (by simp [Lexeme.regex, Lexeme.verbatim]) (isCut_regex rest hc) ?_
    rfl rfl
  simp only [Lexeme.regex, Lexeme.verbatim]
  omega

theorem fits_templateContinuation {c : Char} (hc : c.utf8Size = 1) (rest : List Char) :
    (Lexeme.templateContinuation (c :: rest)).Fits (c :: rest) :=
  fits_templatePart hc rest (by decide)

/-- A token leaves less of a text than there is. -/
theorem Lexeme.Fits.length_after_lt {l : Lexeme} {cs : List Char} (h : l.Fits cs) (hcs : cs ≠ []) :
    (after l.length cs).length < cs.length := by
  have hparts := congrArg List.length h.isCut.upTo_append_after
  have htoken : upTo l.length cs ≠ [] := by
    intro hnil
    have hlength := h.isCut.byteLength_upTo
    rw [hnil, Text.byteLength_nil] at hlength
    exact absurd hlength.symm (Nat.ne_zero_of_lt (h.length_pos hcs)).symm.symm
  have := List.length_pos_iff.mpr htoken
  rw [List.length_append] at hparts
  omega

/-! ### On a token of a text -/

/-- The token of `c` ends at a cut of `text`. -/
def Cursor.EndsIn (text : List Char) (c : Cursor) : Prop :=
  ∃ before, text = before ++ c.rest ∧ c.stop = Text.byteLength before

/-- The token of `c` is one of `text`: it lies between two cuts and fits what comes after the
first. -/
structure Cursor.OnToken (text : List Char) (c : Cursor) : Prop where
  starts : ∃ before, text = before ++ c.tokenRest ∧ c.start = Text.byteLength before
  reads : ∃ l : Lexeme, l.Fits c.tokenRest ∧ c.kind = l.kind ∧
    c.rest = after l.length c.tokenRest ∧ c.stop = c.start + l.length
  mayBind : c.kind.isIdentifierLike = true → MayBind c.value

namespace Cursor.OnToken

variable {text : List Char} {c : Cursor}

theorem place {start : Nat} {before cs : List Char} {l : Lexeme} (htext : text = before ++ cs)
    (hstart : start = Text.byteLength before) (hl : l.Fits cs) :
    (c.place cs start l).OnToken text :=
  ⟨⟨before, htext, hstart⟩, ⟨l, hl, rfl, rfl, rfl⟩, hl.mayBind⟩

theorem kind_eq_endOfFile_iff (h : c.OnToken text) : c.kind = .endOfFile ↔ c.tokenRest = [] := by
  obtain ⟨l, hl, hk, -, -⟩ := h.reads
  rw [hk]
  exact hl.ends

theorem endsIn (h : c.OnToken text) : c.EndsIn text := by
  obtain ⟨before, htext, hstart⟩ := h.starts
  obtain ⟨l, hl, -, hrest, hstop⟩ := h.reads
  refine ⟨before ++ upTo l.length c.tokenRest, ?_, ?_⟩
  · rw [hrest, List.append_assoc, hl.isCut.upTo_append_after, htext]
  · rw [Text.byteLength_append, hl.isCut.byteLength_upTo, hstop, hstart]

theorem rest_suffix (h : c.OnToken text) : c.rest <:+ c.tokenRest := by
  obtain ⟨l, -, -, hrest, -⟩ := h.reads
  rw [hrest]
  exact Text.after_suffix ..

/-- A token before the end of the text has a character. -/
theorem length_rest_lt (h : c.OnToken text) (hk : c.kind ≠ .endOfFile) :
    c.rest.length < c.tokenRest.length := by
  have hne : c.tokenRest ≠ [] := fun hnil => hk (h.kind_eq_endOfFile_iff.mpr hnil)
  obtain ⟨l, hl, -, hrest, -⟩ := h.reads
  rw [hrest]
  exact hl.length_after_lt hne

/-- At the end of the text nothing is left, and the offset is that of the end. -/
theorem of_endOfFile (h : c.OnToken text) (hk : c.kind = .endOfFile) :
    c.rest = [] ∧ c.stop = Text.byteLength text := by
  have hnil := h.kind_eq_endOfFile_iff.mp hk
  have hrest : c.rest = [] := List.suffix_nil.mp (hnil ▸ h.rest_suffix)
  obtain ⟨before, htext, hstop⟩ := h.endsIn
  exact ⟨hrest, by rw [hstop, htext, hrest, List.append_nil]⟩

/-- A token is spelled like its kind. -/
theorem prefix_of_spelling? (h : c.OnToken text) {w : String} (hw : c.kind.spelling? = some w) :
    w.toList <+: c.tokenRest := by
  obtain ⟨l, hl, hk, -, -⟩ := h.reads
  rw [← hl.spelled w (hk ▸ hw)]
  exact ⟨_, hl.isCut.upTo_append_after⟩

/-- A `>` that more of the text is joined to. -/
theorem extend {k : Kind} {n : Nat} (h : c.OnToken text) (hk : c.kind = .greaterThan)
    (hsign : joined? c.rest = some (k, n)) : (c.extend k n).OnToken text := by
  obtain ⟨l, hl, hlk, hrest, hstop⟩ := h.reads
  obtain ⟨hmem, hlength, hprefix⟩ := prefix_of_joined? hsign
  have hupTo : upTo l.length c.tokenRest = ['>'] := hl.spelled ">" (by rw [← hlk, hk]; rfl)
  have hone : l.length = 1 := by
    rw [← hl.isCut.byteLength_upTo, hupTo]
    rfl
  have htoken : c.tokenRest = '>' :: c.rest := by
    rw [← hl.isCut.upTo_append_after, hupTo, ← hrest]
    rfl
  have hfits := fits_of_prefix hmem (htoken ▸ hprefix) hlength
  refine ⟨h.starts, ⟨_, hfits, rfl, ?_, ?_⟩, fun hname => ?_⟩
  · have hrest' : after n c.rest = after (1 + n) c.tokenRest := by
      rw [← hone, hl.isCut.after_add, ← hrest]
    exact hrest'
  · rw [Cursor.extend, hstop, hone, Nat.add_assoc]
  · exact nomatch (eq_of_mem_marks k hmem).2.2.2.symm.trans hname

theorem tokenRest_suffix (h : c.OnToken text) : c.tokenRest <:+ text := by
  obtain ⟨before, htext, -⟩ := h.starts
  exact ⟨before, htext.symm⟩

/-- Tokens at different offsets have different texts after them. -/
theorem length_lt_of_start_ne {d : Cursor} (hc : c.OnToken text) (hd : d.OnToken text)
    (hsuffix : d.tokenRest <:+ c.tokenRest) (h : d.start ≠ c.start) :
    d.tokenRest.length < c.tokenRest.length := by
  refine Nat.lt_of_le_of_ne hsuffix.length_le fun hlength => h ?_
  have heq := hsuffix.eq_of_length hlength
  obtain ⟨before, htext, hstart⟩ := hc.starts
  obtain ⟨before', htext', hstart'⟩ := hd.starts
  rw [heq] at htext'
  rw [hstart, hstart', List.append_cancel_right (htext'.symm.trans htext)]

/-- Tokens at one offset have the same text after them. -/
theorem tokenRest_eq_of_start_eq {d : Cursor} (hc : c.OnToken text) (hd : d.OnToken text)
    (hsuffix : d.tokenRest <:+ c.tokenRest) (h : d.start = c.start) :
    d.tokenRest = c.tokenRest := by
  obtain ⟨skipped, hskipped⟩ := hsuffix
  obtain ⟨before, htext, hstart⟩ := hc.starts
  obtain ⟨before', htext', hstart'⟩ := hd.starts
  have hlength := congrArg Text.byteLength (htext.symm.trans htext')
  have hlength' := congrArg Text.byteLength hskipped
  simp only [Text.byteLength_append] at hlength hlength'
  have hnil : skipped = [] := Text.byteLength_eq_zero_iff.mp (by omega)
  rw [← hskipped, hnil, List.nil_append]

end Cursor.OnToken

/-! ### Scanners -/

namespace Scanner

variable {text : List Char} {s : Scanner}

theorem endsIn_ofText (text : List Char) (skipTrivia : Bool) :
    (ofText text skipTrivia).cursor.EndsIn text :=
  ⟨[], rfl, rfl⟩

theorem onToken_scanOver (bound : List Char) (h : s.cursor.EndsIn text) :
    (scanOver bound s).cursor.OnToken text ∧
      (scanOver bound s).cursor.tokenRest <:+ s.cursor.rest := by
  induction bound generalizing s with
  | nil =>
    obtain ⟨before, htext, hstop⟩ := h
    exact ⟨.place htext hstop (Lexeme.fits_ofText _), List.suffix_refl _⟩
  | cons c bound ih =>
    obtain ⟨before, htext, hstop⟩ := h
    have hnext :
        (s.place s.cursor.rest s.cursor.stop (.ofText s.cursor.rest)).cursor.OnToken text :=
      .place htext hstop (Lexeme.fits_ofText _)
    rw [scanOver]
    split
    · obtain ⟨hon, hsuffix⟩ := ih hnext.endsIn
      exact ⟨hon, hsuffix.trans hnext.rest_suffix⟩
    · exact ⟨hnext, List.suffix_refl _⟩

/-- A scan steps to a token of the text that comes after the current one. -/
theorem onToken_scan (h : s.cursor.EndsIn text) :
    s.scan.cursor.OnToken text ∧ s.scan.cursor.tokenRest <:+ s.cursor.rest :=
  onToken_scanOver _ h

theorem onToken_rescan {l : Lexeme} (h : s.cursor.OnToken text) (hl : l.Fits s.cursor.tokenRest) :
    (s.rescan l).cursor.OnToken text := by
  obtain ⟨before, htext, hstart⟩ := h.starts
  exact .place htext hstart hl

/-- A token whose spelling starts with a character of one byte. -/
theorem cons_of_spelling? (h : s.cursor.OnToken text) {w : String}
    (hw : s.cursor.kind.spelling? = some w) (hone : w.toList.head?.any (·.utf8Size = 1)) :
    ∃ c rest, s.cursor.tokenRest = c :: rest ∧ c.utf8Size = 1 := by
  obtain ⟨rest, hrest⟩ := h.prefix_of_spelling? hw
  cases hchars : w.toList with
  | nil =>
    rw [hchars] at hone
    cases hone
  | cons c more =>
    rw [hchars] at hone hrest
    exact ⟨c, more ++ rest, hrest.symm, of_decide_eq_true hone⟩

/-- A way to read the current token again leaves the scanner on a token that starts there. -/
structure Rescans (f : Scanner → Scanner) : Prop where
  onToken : ∀ {s : Scanner} {text : List Char}, s.cursor.OnToken text →
    (f s).cursor.OnToken text
  tokenRest : ∀ s : Scanner, (f s).cursor.tokenRest = s.cursor.tokenRest
  skipTrivia : ∀ s : Scanner, (f s).skipTrivia = s.skipTrivia

theorem rescans_rescanGreater : Rescans rescanGreater where
  onToken {s text} h := by
    unfold rescanGreater
    split
    · next hk =>
      split
      · next k n hsign => exact h.extend hk hsign
      · exact h
    · exact h
  tokenRest s := by
    unfold rescanGreater
    split
    · split <;> rfl
    · rfl
  skipTrivia s := by
    unfold rescanGreater
    split
    · split <;> rfl
    · rfl

theorem rescans_rescanSlash : Rescans rescanSlash where
  onToken {s text} h := by
    unfold rescanSlash
    split
    · next hk =>
      have hone : ∃ c rest, s.cursor.tokenRest = c :: rest ∧ c.utf8Size = 1 := by
        simp only [Bool.or_eq_true, decide_eq_true_eq] at hk
        rcases hk with hk | hk
        · exact cons_of_spelling? (w := "/") h (by rw [hk]; rfl) rfl
        · exact cons_of_spelling? (w := "/=") h (by rw [hk]; rfl) rfl
      obtain ⟨c, rest, hcs, hc⟩ := hone
      exact onToken_rescan h (hcs ▸ fits_regex hc rest)
    · exact h
  tokenRest s := by
    unfold rescanSlash
    split <;> rfl
  skipTrivia s := by
    unfold rescanSlash
    split <;> rfl

theorem rescans_rescanTemplate : Rescans rescanTemplate where
  onToken {s text} h := by
    unfold rescanTemplate
    split
    · next hk =>
      obtain ⟨c, rest, hcs, hc⟩ := cons_of_spelling? (w := "\x7d") h (by rw [hk]; rfl) rfl
      exact onToken_rescan h (hcs ▸ fits_templateContinuation hc rest)
    · exact h
  tokenRest s := by
    unfold rescanTemplate
    split <;> rfl
  skipTrivia s := by
    unfold rescanTemplate
    split <;> rfl

end Scanner

end Unchain.Token
