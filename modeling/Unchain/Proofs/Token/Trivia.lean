import Unchain.Proofs.Token.Tiling

/-!
# Reading without trivia

A scanner that steps over trivia stops at the tokens that are no trivia, and a
scanner that keeps it stops at all of them. What the first one makes of a text is
what the second one does with the trivia left out (`withoutTrivia`): a token
then starts in full where the last one that was kept ended, and it remembers
whether a line ended in the trivia before it.

The two scanners are compared token by token (`Synced`); one scan that steps over
trivia is as many scans that do not (`tokens_scanOver`).
-/

namespace Unchain.Token

/-! ### Line breaks in trivia -/

theorem Kind.isTrivia_of_spelling? {k : Kind} {w : String} (h : k.spelling? = some w) :
    k.isTrivia = false := by
  have hall : ∀ k ∈ Kind.trivia, k.spelling? = none := by decide
  rw [Bool.eq_false_iff]
  intro htrivia
  cases h.symm.trans (hall k (List.contains_iff_mem.mp htrivia))

/-- A token that is neither trivia nor said to end a line. -/
structure Lexeme.IsSolid (l : Lexeme) : Prop where
  isTrivia : l.kind.isTrivia = false
  endsLine : l.endsLine = false

theorem isSolid_number (cs : List Char) : (number cs).IsSolid := by
  unfold number
  dsimp only
  split <;> exact ⟨rfl, rfl⟩

theorem isSolid_templatePart {whole part : Kind} (cs : List Char)
    (hwhole : whole.isTrivia = false) (hpart : part.isTrivia = false) :
    (templatePart whole part cs).IsSolid := by
  rw [templatePart]
  split
  · exact ⟨hwhole, rfl⟩
  · exact ⟨hpart, rfl⟩
  · exact ⟨hwhole, rfl⟩

theorem isSolid_word (cs : List Char) : (word cs).IsSolid := by
  refine ⟨?_, rfl⟩
  rw [kind_word]
  cases hk : Kind.keyword? (String.ofList (word cs).value) with
  | none => rfl
  | some k => exact Kind.isTrivia_of_spelling? (Kind.spelling?_of_keyword? hk)

/-- Signs are no trivia. -/
theorem isTrivia_of_mem_marks : ∀ k ∈ marks, k.isTrivia = false := by decide

theorem isSolid_wordOrLiteral (c : Char) (cs : List Char) : (wordOrLiteral c cs).IsSolid := by
  unfold wordOrLiteral
  split
  · exact ⟨rfl, rfl⟩
  split
  · exact isSolid_templatePart _ rfl rfl
  split
  · split <;> exact ⟨rfl, rfl⟩
  split
  · exact isSolid_number _
  split
  · exact isSolid_word _
  · exact ⟨rfl, rfl⟩

theorem isSolid_significant (c : Char) (cs : List Char) : (significant c cs).IsSolid := by
  rw [significant]
  split
  · exact isSolid_number _
  split
  · next k n hsign => exact ⟨isTrivia_of_mem_marks k (punctuator?_eq_some hsign).1, rfl⟩
  · exact isSolid_wordOrLiteral c cs

theorem isLineBreak_of_isInlineBlank {c : Char} (h : isInlineBlank c = true) :
    isLineBreak c = false := by
  rw [Bool.eq_false_iff]
  intro hbreak
  have hcases : c = '\n' ∨ c = '\r' ∨ c = '\u2028' ∨ c = '\u2029' := by
    simpa [isLineBreak, or_assoc] using hbreak
  rcases hcases with rfl | rfl | rfl | rfl <;> cases h

/-- Characters without a line break among them. -/
theorem any_isLineBreak_bytesWhile {p : Char → Bool} (cs : List Char)
    (h : ∀ c, p c = true → isLineBreak c = false) :
    (Text.upTo (bytesWhile p cs) cs).any isLineBreak = false := by
  rw [upTo_bytesWhile, List.any_eq_false]
  intro c hc
  simpa using h c (List.all_eq_true.mp List.all_takeWhile c hc)

theorem any_isLineBreak_commentBody (cs : List Char) :
    (Text.upTo (commentBody cs).1 cs).any isLineBreak = (commentBody cs).2.2 := by
  fun_induction commentBody cs with
  | case1 => rfl
  | case2 c rest h =>
    obtain ⟨rfl, hslash⟩ := h
    obtain ⟨rest, rfl⟩ := Text.exists_cons_of_byteAt?
      (Text.byteAt?_succ_cons (c := '*') rfl 0 rest ▸ hslash) rfl
    exact congrArg (List.any · isLineBreak) (Text.upTo_append ['*', '/'] rest)
  | case3 c rest h length closed endsLine hrest ih =>
    have hcut := isCut_commentBody rest
    rw [hrest] at ih hcut
    rw [hcut.upTo_cons c, List.any_cons, ih]

/-- What comes after the two characters that open a comment. -/
theorem any_isLineBreak_comment {a b : Char} {rest : List Char} {n : Nat} (ha : a.utf8Size = 1)
    (hb : b.utf8Size = 1) (hbyte : Text.byteAt? 1 (a :: rest) = some b)
    (hline : isLineBreak a = false ∧ isLineBreak b = false)
    (hn : Text.IsCut (Text.after 2 (a :: rest)) n) :
    (Text.upTo (2 + n) (a :: rest)).any isLineBreak =
      (Text.upTo n (Text.after 2 (a :: rest))).any isLineBreak := by
  obtain ⟨rest, rfl⟩ := Text.exists_cons_of_byteAt? (Text.byteAt?_succ_cons ha 0 rest ▸ hbyte) hb
  have htwo : Text.upTo 2 (a :: b :: rest) = [a, b] := by
    have hparts := Text.upTo_append [a, b] rest
    rwa [Text.byteLength_cons, Text.byteLength_cons, ha, hb] at hparts
  rw [(isCut_two ha hb hbyte).upTo_add hn, htwo, List.any_append, List.any_cons, List.any_cons,
    hline.1, hline.2]
  rfl

theorem endsLine_slash (rest : List Char) :
    (slash ('/' :: rest)).endsLine = ((slash ('/' :: rest)).kind.isTrivia &&
      (Text.upTo (slash ('/' :: rest)).length ('/' :: rest)).any isLineBreak) := by
  rw [slash]
  split
  · next h =>
    have hrest := any_isLineBreak_bytesWhile (p := (!isLineBreak ·))
      (Text.after 2 ('/' :: rest)) (by simp)
    have hcomment := any_isLineBreak_comment rfl rfl h (by decide)
      (isCut_bytesWhile (!isLineBreak ·) _)
    exact (hcomment.trans hrest).symm
  · next h =>
    have hcomment := any_isLineBreak_comment rfl rfl h (by decide) (isCut_commentBody _)
    exact (hcomment.trans (any_isLineBreak_commentBody _)).symm
  · rfl
  · rfl

theorem endsLine_newLine {c : Char} (rest : List Char) (h : isLineBreak c = true) :
    (Text.upTo (newLine c (c :: rest)).length (c :: rest)).any isLineBreak = true := by
  have hcut := (fits_newLine (c := c) rest).isCut
  have hpos := (fits_newLine (c := c) rest).length_pos (List.cons_ne_nil c rest)
  have hparts := hcut.exists_parts
  cases htoken : Text.upTo (newLine c (c :: rest)).length (c :: rest) with
  | nil =>
    rw [htoken, Text.byteLength_nil] at hparts
    exact absurd hparts.2 (Nat.ne_of_lt hpos)
  | cons d more =>
    rw [htoken] at hparts
    obtain rfl : c = d := (List.cons.inj hparts.1).1
    rw [List.any_cons, h, Bool.true_or]

/-- Trivia is said to end a line if there is a line break in it, any other token never is. -/
theorem Lexeme.endsLine_ofText (cs : List Char) :
    (ofText cs).endsLine =
      ((ofText cs).kind.isTrivia && (Text.upTo (ofText cs).length cs).any isLineBreak) := by
  unfold ofText
  split
  · rfl
  · next c rest =>
    split
    · next hbreak => exact (endsLine_newLine rest hbreak).symm
    split
    · exact (any_isLineBreak_bytesWhile (c :: rest) fun c hc =>
        isLineBreak_of_isInlineBlank hc).symm
    split
    · next hslash =>
      subst hslash
      exact endsLine_slash rest
    · have hsolid := isSolid_significant c (c :: rest)
      rw [hsolid.isTrivia, hsolid.endsLine, Bool.false_and]

/-! ### Leaving out trivia -/

namespace Cursor

/-- What a token is and where it stands, whatever comes before it. -/
def content (c : Cursor) : Kind × Nat × Nat × String × Bool :=
  (c.kind, c.start, c.stop, c.value, c.unterminated)

/-- Whether a line ends in a token. -/
def hasLineBreak (c : Cursor) : Bool := c.text.toList.any isLineBreak

/-- Tokens without the trivia among them, when the token before them ended at `fullStart` and
`lineBreak` tells whether a line ended in trivia since. -/
def withoutTrivia (fullStart : Nat) (lineBreak : Bool) : List Cursor → List Cursor
  | [] => []
  | c :: rest =>
    if c.kind.isTrivia then withoutTrivia fullStart (lineBreak || c.hasLineBreak) rest
    else { c with fullStart, lineBreakBefore := lineBreak } :: withoutTrivia c.stop false rest

variable {c : Cursor} {fullStart : Nat} {lineBreak : Bool}

theorem withoutTrivia_cons_of_trivia (h : c.kind.isTrivia = true) (cs : List Cursor) :
    withoutTrivia fullStart lineBreak (c :: cs) =
      withoutTrivia fullStart (lineBreak || c.hasLineBreak) cs := by
  rw [withoutTrivia, if_pos h]

theorem withoutTrivia_cons_of_solid (h : c.kind.isTrivia = false) (cs : List Cursor) :
    withoutTrivia fullStart lineBreak (c :: cs) =
      { c with fullStart, lineBreakBefore := lineBreak } :: withoutTrivia c.stop false cs := by
  rw [withoutTrivia, if_neg (by rw [h]; exact Bool.false_ne_true)]

theorem map_content_withoutTrivia (fullStart : Nat) (lineBreak : Bool) (cs : List Cursor) :
    (withoutTrivia fullStart lineBreak cs).map content =
      (cs.filter fun c => !c.kind.isTrivia).map content := by
  induction cs generalizing fullStart lineBreak with
  | nil => rfl
  | cons c cs ih =>
    cases hc : c.kind.isTrivia with
    | true => rw [withoutTrivia_cons_of_trivia hc, ih, List.filter_cons_of_neg (by simp [hc])]
    | false =>
      rw [withoutTrivia_cons_of_solid hc, List.map_cons, ih, List.filter_cons_of_pos (by simp [hc])]
      rfl

/-- After trivia a token remembers whether a line ended in it. -/
theorem withoutTrivia_trivia {removed : List Cursor} (h : ∀ t ∈ removed, t.kind.isTrivia = true)
    (cs : List Cursor) :
    withoutTrivia fullStart lineBreak (removed ++ cs) =
      withoutTrivia fullStart (lineBreak || removed.any hasLineBreak) cs := by
  induction removed generalizing lineBreak with
  | nil => rw [List.nil_append, List.any_nil, Bool.or_false]
  | cons t removed ih =>
    have hremoved : ∀ t ∈ removed, t.kind.isTrivia = true := fun t ht =>
      h t (List.mem_cons_of_mem _ ht)
    rw [List.cons_append, withoutTrivia_cons_of_trivia (h t List.mem_cons_self), ih hremoved,
      List.any_cons, Bool.or_assoc]

/-- After a token that is kept, what comes next is read as after that token. -/
theorem withoutTrivia_append {before : List Cursor} {last : Cursor}
    (hlast : last.kind.isTrivia = false) (cs : List Cursor) :
    withoutTrivia fullStart lineBreak (before ++ last :: cs) =
      withoutTrivia fullStart lineBreak (before ++ [last]) ++ withoutTrivia last.stop false cs := by
  induction before generalizing fullStart lineBreak with
  | nil =>
    rw [List.nil_append, List.nil_append, withoutTrivia_cons_of_solid hlast,
      withoutTrivia_cons_of_solid hlast]
    rfl
  | cons t before ih =>
    cases ht : t.kind.isTrivia with
    | true => simp only [List.cons_append, withoutTrivia_cons_of_trivia ht, ih]
    | false => simp only [List.cons_append, withoutTrivia_cons_of_solid ht, ih]

theorem length_withoutTrivia (fullStart : Nat) (lineBreak : Bool) (cs : List Cursor) :
    (withoutTrivia fullStart lineBreak cs).length =
      (cs.filter fun c => !c.kind.isTrivia).length := by
  simpa using congrArg List.length
    (map_content_withoutTrivia fullStart lineBreak cs)

/-- A token that is kept, by the last one before it that is kept and the trivia between them. -/
theorem withoutTrivia_between {before removed : List Cursor}
    (hlast : ∀ last ∈ before.getLast?, last.kind.isTrivia = false)
    (hremoved : ∀ r ∈ removed, r.kind.isTrivia = true) (hc : c.kind.isTrivia = false)
    (after : List Cursor) :
    (withoutTrivia 0 false (before ++ (removed ++ c :: after)))[
        (before.filter fun c => !c.kind.isTrivia).length]? =
      some { c with
        fullStart := (before.getLast?.map stop).getD 0
        lineBreakBefore := removed.any hasLineBreak } := by
  cases hbefore : before.getLast? with
  | none =>
    obtain rfl := List.getLast?_eq_none_iff.mp hbefore
    rw [List.nil_append, withoutTrivia_trivia hremoved, withoutTrivia_cons_of_solid hc]
    rfl
  | some last =>
    obtain ⟨pre, rfl⟩ := List.getLast?_eq_some_iff.mp hbefore
    have hsolid := hlast last hbefore
    rw [← length_withoutTrivia 0 false, List.append_assoc,
      List.singleton_append, withoutTrivia_append hsolid,
      List.getElem?_append_right (Nat.le_refl _), Nat.sub_self, withoutTrivia_trivia hremoved,
      withoutTrivia_cons_of_solid hc]
    rfl

end Cursor

namespace Scanner

/-! ### All tokens of a text -/

/-- A scanner after its token and the next `bound` ones, the end of the text at the latest. -/
def untilEnd : Nat → Scanner → List Scanner
  | 0, s => [s]
  | bound + 1, s => s :: if s.cursor.kind = .endOfFile then [] else untilEnd bound s.scan

/-- A scanner of a text after each token. A text has no more tokens than characters, apart from its
end. -/
def scans (text : List Char) (skipTrivia : Bool) : List Scanner :=
  untilEnd text.length (ofText text skipTrivia).scan

/-- The tokens of a text, the last of them its end. -/
def tokens (text : List Char) (skipTrivia : Bool) : List Cursor :=
  (scans text skipTrivia).map cursor

/-- The errors that the last of some scanners has found. -/
def lastErrors (scanners : List Scanner) : Array SourceError :=
  (scanners.getLast?.map errors).getD #[]

theorem untilEnd_of_endOfFile (bound : Nat) {s : Scanner} (h : s.cursor.kind = .endOfFile) :
    untilEnd bound s = [s] := by
  cases bound with
  | zero => rfl
  | succ bound => rw [untilEnd, if_pos h]

theorem untilEnd_of_ne {bound : Nat} {s : Scanner} (h : s.cursor.kind ≠ .endOfFile) :
    untilEnd (bound + 1) s = s :: untilEnd bound s.scan := by
  rw [untilEnd, if_neg h]

theorem untilEnd_ne_nil (bound : Nat) (s : Scanner) : untilEnd bound s ≠ [] := by
  cases bound <;> exact List.cons_ne_nil _ _

theorem lastErrors_cons_untilEnd (first : Scanner) (bound : Nat) (s : Scanner) :
    lastErrors (first :: untilEnd bound s) = lastErrors (untilEnd bound s) := by
  obtain ⟨t, rest, h⟩ := List.exists_cons_of_ne_nil (untilEnd_ne_nil bound s)
  rw [h, lastErrors, lastErrors, List.getLast?_cons_cons]

/-! ### Side by side -/

/-- A scanner that steps over trivia and one that keeps it stand before the same text and have
found the same errors. -/
structure Synced (s k : Scanner) : Prop where
  skips : s.skipTrivia = true
  keeps : k.skipTrivia = false
  rest : s.cursor.rest = k.cursor.rest
  stop : s.cursor.stop = k.cursor.stop
  errors : s.errors = k.errors

variable {s k : Scanner}

theorem errors_place (h : s.errors = k.errors) (cs : List Char) (start : Nat) (l : Lexeme) :
    (s.place cs start l).errors = (k.place cs start l).errors := by
  simp only [place, h]
  rfl

theorem Synced.place (h : Synced s k) (cs : List Char) (start : Nat) (l : Lexeme) :
    Synced (s.place cs start l) (k.place cs start l) :=
  ⟨h.skips, h.keeps, rfl, rfl, errors_place h.errors cs start l⟩

theorem hasLineBreak_place (cs : List Char) (start : Nat) (l : Lexeme) :
    (s.place cs start l).cursor.hasLineBreak = (Text.upTo l.length cs).any isLineBreak := by
  simp only [Cursor.hasLineBreak, Cursor.text, String.toList_ofList, Scanner.place, Cursor.place,
    Nat.add_sub_cancel_left, Text.slice_zero]

/-- A scanner about to read its next token. -/
def fresh (s : Scanner) : Scanner :=
  { s with cursor := { s.cursor with fullStart := s.cursor.stop, lineBreakBefore := false } }

theorem scan_eq_scanOver (s : Scanner) : s.scan = scanOver s.cursor.rest s.fresh := rfl

/-- A scanner that keeps trivia takes what comes next. -/
theorem scan_eq_place (h : k.skipTrivia = false) :
    k.scan = k.fresh.place k.cursor.rest k.cursor.stop (.ofText k.cursor.rest) :=
  scanOver_of_keeps k.cursor.rest (s := k.fresh) h

theorem Synced.fresh_left (h : Synced s k) : Synced s.fresh k :=
  ⟨h.skips, h.keeps, h.rest, h.stop, h.errors⟩

theorem Synced.fresh_right (h : Synced s k) : Synced s k.fresh :=
  ⟨h.skips, h.keeps, h.rest, h.stop, h.errors⟩

theorem scanOver_of_trivia (c : Char) (bound : List Char) (h : s.skipTrivia = true)
    (hl : (Lexeme.ofText s.cursor.rest).kind.isTrivia = true) :
    scanOver (c :: bound) s =
      scanOver bound (s.place s.cursor.rest s.cursor.stop (.ofText s.cursor.rest)) := by
  rw [scanOver, h, hl, Bool.true_and, if_pos rfl]

theorem scanOver_of_solid (bound : List Char)
    (hl : (Lexeme.ofText s.cursor.rest).kind.isTrivia = false) :
    scanOver bound s = s.place s.cursor.rest s.cursor.stop (.ofText s.cursor.rest) := by
  cases bound with
  | nil => rfl
  | cons c bound => rw [scanOver, hl, Bool.and_false, if_neg Bool.false_ne_true]

/-- A token other than the end leaves less of the text. -/
theorem length_rest_place (s : Scanner)
    (h : (Lexeme.ofText s.cursor.rest).kind ≠ .endOfFile) (start : Nat) :
    (s.place s.cursor.rest start (.ofText s.cursor.rest)).cursor.rest.length <
      s.cursor.rest.length := by
  have hfits := Lexeme.fits_ofText s.cursor.rest
  exact hfits.length_after_lt fun hnil => h (hfits.ends.mpr hnil)

namespace Synced

/-- The next token, trivia or not, is the same. -/
theorem place_scan (h : Synced s k) :
    Synced (s.place s.cursor.rest s.cursor.stop (.ofText s.cursor.rest)) k.scan := by
  rw [scan_eq_place h.keeps, h.rest, h.stop]
  exact h.fresh_right.place _ _ _

theorem kind_scan (h : Synced s k) : k.scan.cursor.kind = (Lexeme.ofText s.cursor.rest).kind := by
  rw [scan_eq_place h.keeps, h.rest]
  rfl

theorem hasLineBreak_scan (h : Synced s k) :
    k.scan.cursor.hasLineBreak =
      (Text.upTo (Lexeme.ofText s.cursor.rest).length s.cursor.rest).any isLineBreak := by
  rw [scan_eq_place h.keeps, hasLineBreak_place, h.rest]

/-- A token that is no trivia differs only in what it remembers of the text before it. -/
theorem cursor_place (h : Synced s k)
    (hl : (Lexeme.ofText s.cursor.rest).kind.isTrivia = false) :
    (s.place s.cursor.rest s.cursor.stop (.ofText s.cursor.rest)).cursor =
      { k.scan.cursor with
        fullStart := s.cursor.fullStart, lineBreakBefore := s.cursor.lineBreakBefore } := by
  have hends : (Lexeme.ofText s.cursor.rest).endsLine = false := by
    rw [Lexeme.endsLine_ofText, hl, Bool.false_and]
  rw [scan_eq_place h.keeps, ← h.rest, ← h.stop]
  simp only [Scanner.place, Cursor.place, hends, Bool.or_false]

end Synced

/-- At the end of the text both find it. -/
theorem tokens_scanOver_of_end (n m : Nat) (bound : List Char) (h : Synced s k)
    (hl : (Lexeme.ofText s.cursor.rest).kind = .endOfFile) :
    (untilEnd m (scanOver bound s)).map cursor =
        Cursor.withoutTrivia s.cursor.fullStart s.cursor.lineBreakBefore
          ((untilEnd n k.scan).map cursor) ∧
      lastErrors (untilEnd m (scanOver bound s)) = lastErrors (untilEnd n k.scan) := by
  have hsolid : (Lexeme.ofText s.cursor.rest).kind.isTrivia = false := by rw [hl]; rfl
  have hend : k.scan.cursor.kind = .endOfFile := h.kind_scan.trans hl
  rw [scanOver_of_solid bound hsolid, untilEnd_of_endOfFile m hl, untilEnd_of_endOfFile n hend]
  refine ⟨?_, h.place_scan.errors⟩
  rw [List.map_singleton, List.map_singleton, h.cursor_place hsolid,
    Cursor.withoutTrivia_cons_of_solid (by rw [hend]; rfl)]
  rfl

/-- From synced scanners on, the tokens of the one are those of the other without trivia, and both
find the same errors. -/
theorem tokens_scanOver (n m : Nat) (bound : List Char) {s k : Scanner} (h : Synced s k)
    (hn : s.cursor.rest.length ≤ n) (hm : s.cursor.rest.length ≤ m)
    (hbound : s.cursor.rest.length ≤ bound.length) :
    (untilEnd m (scanOver bound s)).map cursor =
        Cursor.withoutTrivia s.cursor.fullStart s.cursor.lineBreakBefore
          ((untilEnd n k.scan).map cursor) ∧
      lastErrors (untilEnd m (scanOver bound s)) = lastErrors (untilEnd n k.scan) := by
  -- By induction on the tokens left to the scanner that keeps trivia.
  induction n generalizing m bound s k with
  | zero =>
    have hnil := List.length_eq_zero_iff.mp (Nat.le_zero.mp hn)
    exact tokens_scanOver_of_end 0 m bound h (by rw [hnil]; rfl)
  | succ n ih =>
    by_cases hend : (Lexeme.ofText s.cursor.rest).kind = .endOfFile
    · exact tokens_scanOver_of_end (n + 1) m bound h hend
    have hless := length_rest_place s hend s.cursor.stop
    have hkind := h.kind_scan
    rw [untilEnd_of_ne (s := k.scan) (hkind ▸ hend), List.map_cons, lastErrors_cons_untilEnd]
    by_cases htrivia : (Lexeme.ofText s.cursor.rest).kind.isTrivia = true
    · -- The scan goes on behind the trivia.
      obtain ⟨c, bound, rfl⟩ : ∃ c rest, bound = c :: rest :=
        List.exists_cons_of_length_pos (by omega)
      rw [List.length_cons] at hbound
      rw [scanOver_of_trivia c bound h.skips htrivia]
      obtain ⟨htokens, herrors⟩ := ih m bound h.place_scan (by omega) (by omega) (by omega)
      refine ⟨?_, herrors⟩
      have hbreaks : k.scan.cursor.hasLineBreak = (Lexeme.ofText s.cursor.rest).endsLine := by
        rw [h.hasLineBreak_scan, Lexeme.endsLine_ofText, htrivia, Bool.true_and]
      rw [htokens, Cursor.withoutTrivia_cons_of_trivia (hkind ▸ htrivia), hbreaks]
      rfl
    · -- The scan ends here, and the next one starts afresh.
      have hsolid := Bool.eq_false_iff.mpr htrivia
      rw [scanOver_of_solid bound hsolid]
      obtain ⟨m, rfl⟩ : ∃ m', m = m' + 1 := ⟨m - 1, by omega⟩
      have hnext := h.place_scan
      have hcursor := h.cursor_place hsolid
      generalize s.place s.cursor.rest s.cursor.stop (.ofText s.cursor.rest) = next at *
      have hends : next.cursor.kind ≠ .endOfFile := by rw [hcursor, hkind]; exact hend
      obtain ⟨htokens, herrors⟩ := ih m next.cursor.rest hnext.fresh_left
        (by change next.cursor.rest.length ≤ n; omega)
        (by change next.cursor.rest.length ≤ m; omega) (Nat.le_refl _)
      rw [untilEnd_of_ne hends, List.map_cons, lastErrors_cons_untilEnd, scan_eq_scanOver]
      have hstart : next.fresh.cursor.fullStart = k.scan.cursor.stop := hnext.stop
      refine ⟨?_, herrors⟩
      rw [htokens, Cursor.withoutTrivia_cons_of_solid (hkind ▸ hsolid), hcursor, hstart]
      rfl

/-! ### A whole text -/

/-- Reading a text over its trivia gives its tokens without the trivia, and finds the same
errors. -/
theorem tokens_eq_withoutTrivia (text : List Char) :
    tokens text true = Cursor.withoutTrivia 0 false (tokens text false) ∧
      lastErrors (scans text true) = lastErrors (scans text false) := by
  have hsynced : Synced (ofText text true).fresh (ofText text false) := ⟨rfl, rfl, rfl, rfl, rfl⟩
  exact tokens_scanOver text.length text.length text hsynced (Nat.le_refl _) (Nat.le_refl _)
    (Nat.le_refl _)

/-- Scanning reaches the end of the text. -/
theorem getLast?_untilEnd {text : List Char} (bound : Nat) {s : Scanner} (h : s.cursor.OnToken text)
    (hbound : s.cursor.tokenRest.length ≤ bound) :
    (untilEnd bound s).getLast?.map (·.cursor.kind) = some .endOfFile := by
  induction bound generalizing s with
  | zero =>
    have hnil := List.length_eq_zero_iff.mp (Nat.le_zero.mp hbound)
    rw [untilEnd_of_endOfFile 0 (h.kind_eq_endOfFile_iff.mpr hnil)]
    exact congrArg some (h.kind_eq_endOfFile_iff.mpr hnil)
  | succ bound ih =>
    by_cases hend : s.cursor.kind = .endOfFile
    · rw [untilEnd_of_endOfFile _ hend]
      exact congrArg some hend
    · obtain ⟨hnext, hsuffix⟩ := onToken_scan h.endsIn
      have hless := h.length_rest_lt hend
      have hlast := ih hnext (by have := hsuffix.length_le; omega)
      obtain ⟨t, rest, hcons⟩ := List.exists_cons_of_ne_nil (untilEnd_ne_nil bound s.scan)
      rw [untilEnd_of_ne hend, hcons, List.getLast?_cons_cons, ← hcons, hlast]

theorem kind_getLast?_tokens (text : List Char) (skipTrivia : Bool) :
    (tokens text skipTrivia).getLast?.map Cursor.kind = some .endOfFile := by
  obtain ⟨hfirst, hsuffix⟩ := onToken_scan (endsIn_ofText text skipTrivia)
  rw [tokens, List.getLast?_map, Option.map_map]
  exact getLast?_untilEnd text.length hfirst hsuffix.length_le

/-- Reading a text over its trivia gives the tokens that are no trivia, to the end of the text, and
finds the same errors. Such a token starts in full where the last one before it ended that is no
trivia, and it comes after a line break if there is one in the trivia between the two. -/
theorem tokens_skip_trivia (text : List Char) :
    (tokens text true).getLast?.map Cursor.kind = some .endOfFile ∧
    (tokens text false).getLast?.map Cursor.kind = some .endOfFile ∧
    (tokens text true).map Cursor.content =
      ((tokens text false).filter fun t => !t.kind.isTrivia).map Cursor.content ∧
    lastErrors (scans text true) = lastErrors (scans text false) ∧
    ∀ before removed t after, tokens text false = before ++ (removed ++ t :: after) →
      (∀ last ∈ before.getLast?, last.kind.isTrivia = false) →
      (∀ r ∈ removed, r.kind.isTrivia = true) → t.kind.isTrivia = false →
      ∃ kept, (tokens text true)[(before.filter fun t => !t.kind.isTrivia).length]? = some kept ∧
        kept.content = t.content ∧
        kept.fullStart = (before.getLast?.map Cursor.stop).getD 0 ∧
        (kept.lineBreakBefore = true ↔
          ∃ r ∈ removed, ∃ c ∈ r.text.toList, isLineBreak c = true) := by
  obtain ⟨htokens, herrors⟩ := tokens_eq_withoutTrivia text
  refine ⟨kind_getLast?_tokens text true, kind_getLast?_tokens text false, ?_, herrors, ?_⟩
  · rw [htokens, Cursor.map_content_withoutTrivia]
  · intro before removed t after hsplit hlast hremoved ht
    have hkept := Cursor.withoutTrivia_between hlast hremoved ht after
    rw [← hsplit, ← htokens] at hkept
    refine ⟨_, hkept, rfl, rfl, ?_⟩
    simp only [List.any_eq_true, Cursor.hasLineBreak]

/-- Two names with a blank and a comment of two lines between them. -/
theorem tokens_skip_trivia_between_names :
    ∃ first blank comment second rest,
      tokens "a /*\n*/b".toList false = [first] ++ ([blank, comment] ++ second :: rest) ∧
      first.kind.isTrivia = false ∧ blank.kind.isTrivia = true ∧ comment.kind.isTrivia = true ∧
      second.kind.isTrivia = false ∧ second.value = "b" ∧
      ∃ kept, (tokens "a /*\n*/b".toList true)[1]? = some kept ∧ kept.content = second.content ∧
        kept.fullStart = 1 ∧ kept.lineBreakBefore = true := by
  have hsplit : tokens "a /*\n*/b".toList false = [_] ++ ([_, _] ++ _ :: [_]) := rfl
  obtain ⟨kept, hkept, hcontent, hstart, hbreak⟩ :=
    (tokens_skip_trivia "a /*\n*/b".toList).2.2.2.2 _ _ _ _ hsplit
      (by rintro last ⟨⟩; decide) (by decide) (by decide)
  refine ⟨_, _, _, _, _, hsplit, by decide, by decide, by decide, by decide, by decide, kept, hkept,
    hcontent, hstart, hbreak.mpr ⟨_, List.mem_cons_of_mem _ List.mem_cons_self, '\n', by decide,
      by decide⟩⟩

end Scanner

end Unchain.Token
