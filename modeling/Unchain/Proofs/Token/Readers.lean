import Unchain.Proofs.Text.Bytes
import Unchain.Token.Lexeme

/-!
# Where readers stop

Every reader of tokens moves its offset to a cut of the text. A run of characters
moves by their sizes; what moves by a fixed number of bytes has seen as many bytes
below 128, and each of these is a character (`IsCut.succ`). The parts of an escape
that are taken by their number of bytes were found in the text, so the text is cut
there (`isCut_escape`).

The bytes of punctuation are those of the sign that is found, which has as many of
them as the reader moves by (`punctuator?_eq_some`, `greaterOperator?_eq_some`).
-/

namespace Unchain.Token

open Text (IsCut after byteAt? byteLength upTo)

variable {cs rest : List Char} {c : Char} {n : Nat}

/-! ### Characters of one byte -/

theorem utf8Size_of_isDigit (h : c.isDigit = true) : c.utf8Size = 1 := by
  have hrange : 48 ≤ c.val ∧ c.val ≤ 57 := by simpa [Char.isDigit] using h
  rw [Char.utf8Size_eq_one_iff]
  exact UInt32.le_trans hrange.2 (by decide)

theorem utf8Size_of_le {hi : Char} (h : c ≤ hi) (hhi : hi.val ≤ 127) : c.utf8Size = 1 :=
  Char.utf8Size_eq_one_iff.mpr (UInt32.le_trans h hhi)

theorem utf8Size_of_hexDigit? (h : (hexDigit? c).isSome = true) : c.utf8Size = 1 := by
  unfold hexDigit? at h
  split at h
  · next hc => exact utf8Size_of_isDigit hc
  split at h
  · next hc => exact utf8Size_of_le (of_decide_eq_true (Bool.and_eq_true_iff.mp hc).2) (by decide)
  split at h
  · next hc => exact utf8Size_of_le (of_decide_eq_true (Bool.and_eq_true_iff.mp hc).2) (by decide)
  · cases h

theorem utf8Size_of_isRadixDigit {marker : Char} (h : isRadixDigit marker c = true) :
    c.utf8Size = 1 := by
  unfold isRadixDigit at h
  split at h
  · exact utf8Size_of_hexDigit? h
  split at h
  · exact utf8Size_of_le (of_decide_eq_true (Bool.and_eq_true_iff.mp h).2) (by decide)
  · rcases Bool.or_eq_true_iff.mp h with h | h <;> rw [of_decide_eq_true h] <;> rfl

/-! ### Runs of characters -/

theorem bytesWhile_eq (p : Char → Bool) (cs : List Char) :
    bytesWhile p cs = byteLength (cs.takeWhile p) := by
  induction cs with
  | nil => rfl
  | cons c rest ih =>
    rw [bytesWhile, List.takeWhile_cons]
    split
    · rw [Text.byteLength_cons, ih]
    · rfl

theorem isCut_bytesWhile (p : Char → Bool) (cs : List Char) : IsCut cs (bytesWhile p cs) :=
  Text.isCut_iff.mpr ⟨cs.takeWhile p, cs.dropWhile p, List.takeWhile_append_dropWhile.symm,
    bytesWhile_eq p cs⟩

theorem upTo_bytesWhile (p : Char → Bool) (cs : List Char) :
    upTo (bytesWhile p cs) cs = cs.takeWhile p := by
  have hparts := Text.upTo_append (cs.takeWhile p) (cs.dropWhile p)
  rwa [List.takeWhile_append_dropWhile, ← bytesWhile_eq] at hparts

theorem bytesWhile_pos {p : Char → Bool} (rest : List Char) (h : p c = true) :
    0 < bytesWhile p (c :: rest) := by
  rw [bytesWhile, if_pos h]
  have := c.utf8Size_pos
  omega

/-! ### Comments -/

theorem isCut_commentBody (cs : List Char) : IsCut cs (commentBody cs).1 := by
  fun_induction commentBody cs with
  | case1 => exact Text.isCut_zero _
  | case2 c rest h =>
    obtain ⟨rfl, hslash⟩ := h
    exact (Text.isCut_utf8Size '*' rest).succ hslash rfl
  | case3 c rest h length closed endsLine hrest ih =>
    rw [hrest] at ih
    exact ih.cons c

/-- The second character of a sign that starts with a slash. -/
theorem isCut_two {a b : Char} (ha : a.utf8Size = 1) (hb : b.utf8Size = 1)
    (h : byteAt? 1 (a :: rest) = some b) : IsCut (a :: rest) 2 :=
  (ha ▸ Text.isCut_utf8Size a rest : IsCut (a :: rest) 1).succ h hb

/-! ### Numbers -/

theorem isCut_digitBytes {isDigit : Char → Bool} (hone : ∀ c, isDigit c = true → c.utf8Size = 1)
    (cs : List Char) : IsCut cs (digitBytes isDigit cs) := by
  induction cs with
  | nil => exact Text.isCut_zero _
  | cons c rest ih =>
    rw [digitBytes]
    split
    · next hc =>
      have hsize : c.utf8Size = 1 := by
        rcases Bool.or_eq_true_iff.mp hc with hc | hc
        · exact hone c hc
        · rw [of_decide_eq_true hc]
          rfl
      rw [← hsize]
      exact ih.cons c
    · exact Text.isCut_zero _

theorem isCut_digitsEnd {isDigit : Char → Bool} (hone : ∀ c, isDigit c = true → c.utf8Size = 1)
    (h : IsCut cs n) : IsCut cs (digitsEnd isDigit cs n) :=
  h.add (isCut_digitBytes hone _)

theorem isCut_fractionEnd (h : IsCut cs n) : IsCut cs (fractionEnd cs n) := by
  rw [fractionEnd]
  split
  · next hpoint => exact isCut_digitsEnd (fun _ => utf8Size_of_isDigit) (h.succ hpoint rfl)
  · exact h

theorem isCut_signEnd (h : IsCut cs n) : IsCut cs (signEnd cs n) := by
  rw [signEnd]
  split
  · next hsign => rcases hsign with hs | hs <;> exact h.succ hs rfl
  · exact h

theorem isCut_exponentEnd (h : IsCut cs n) : IsCut cs (exponentEnd cs n) := by
  rw [exponentEnd]
  split
  · next hletter =>
    have hcut : IsCut cs (n + 1) := by
      rcases hletter with he | he <;> exact h.succ he rfl
    dsimp only
    split
    · exact isCut_digitsEnd (fun _ => utf8Size_of_isDigit) (isCut_signEnd hcut)
    · exact h
  · exact h

theorem isCut_numeralEnd (cs : List Char) : IsCut cs (numeralEnd cs) := by
  unfold numeralEnd
  dsimp only
  split
  · next hradix =>
    obtain ⟨hzero, hmarker⟩ := hradix
    obtain ⟨rest, rfl⟩ := Text.exists_cons_of_byteAt? hzero rfl
    obtain ⟨marker, hm, hmem⟩ := (Option.any_eq_true _ _).mp hmarker
    have hsize : marker.utf8Size = 1 := by
      have hall : ['x', 'X', 'o', 'O', 'b', 'B'].all (·.utf8Size = 1) = true := by decide
      exact of_decide_eq_true (List.all_eq_true.mp hall marker (List.contains_iff_mem.mp hmem))
    exact isCut_digitsEnd (fun _ => utf8Size_of_isRadixDigit) (isCut_two rfl hsize hm)
  · exact isCut_exponentEnd (isCut_fractionEnd
      (isCut_digitsEnd (fun _ => utf8Size_of_isDigit) (Text.isCut_zero cs)))

/-! ### Strings -/

/-- A numeral has a digit. -/
theorem ne_nil_of_hexChar? {digits : List Char} (h : hexChar? digits = some c) : digits ≠ [] := by
  rintro rfl
  cases h

theorem isCut_ofCode {letter : Char} {digits : List Char}
    (h : ∀ c, hexChar? digits = some c → IsCut cs n) :
    IsCut cs (Escape.ofCode letter digits n).length := by
  rw [Escape.ofCode]
  split
  · next c hc => exact h c hc
  · exact Text.isCut_zero _

/-- Digits that were taken by their number of bytes. -/
theorem isCut_ofCode_upTo {letter : Char} :
    IsCut cs (Escape.ofCode letter (upTo n cs) n).length :=
  isCut_ofCode fun _ hc => Text.isCut_of_upTo_ne_nil (ne_nil_of_hexChar? hc)

/-- Characters that go on after those before a brace go on with the brace. -/
theorem dropWhile_brace {body : List Char}
    (h : (body.takeWhile (· ≠ '}')).length < body.length) :
    ∃ more, body.dropWhile (· ≠ '}') = '}' :: more := by
  have hne : body.dropWhile (· ≠ '}') ≠ [] := by
    intro hnil
    have hparts := congrArg List.length
      (List.takeWhile_append_dropWhile (p := (· ≠ '}')) (l := body))
    rw [hnil, List.append_nil] at hparts
    omega
  have hhead : (body.dropWhile (· ≠ '}')).head hne = '}' := by
    simpa using List.head_dropWhile_not (· ≠ '}') hne
  exact ⟨_, (List.cons_head_tail hne).symm.trans (congrArg (· :: _) hhead)⟩

theorem isCut_ofUnicode (rest : List Char) : IsCut rest (Escape.ofUnicode rest).length := by
  unfold Escape.ofUnicode
  dsimp only
  split
  · next hopen =>
    obtain ⟨body, rfl⟩ := Text.exists_cons_of_byteAt? hopen rfl
    have hbody : after 1 ('{' :: body) = body := Text.after_utf8Size '{' body
    rw [hbody]
    split
    · next hshort =>
      refine isCut_ofCode fun _ _ => ?_
      obtain ⟨more, hmore⟩ := dropWhile_brace hshort
      refine Text.isCut_iff.mpr ⟨'{' :: (body.takeWhile (· ≠ '}') ++ ['}']), more, ?_, ?_⟩
      · rw [List.cons_append, List.append_assoc, List.singleton_append, ← hmore,
          List.takeWhile_append_dropWhile]
      · rw [Text.byteLength_cons, Text.byteLength_append]
        change _ = 1 + (_ + 1)
        omega
    · exact isCut_ofCode fun _ hc => absurd rfl (ne_nil_of_hexChar? hc)
  · exact isCut_ofCode_upTo

theorem isCut_afterFirst (c : Char) (rest : List Char) :
    IsCut rest (Escape.afterFirst c rest).length := by
  unfold Escape.afterFirst
  split
  case h_8 =>
    split
    · next hline =>
      exact (Text.isCut_zero rest).succ hline rfl
    · exact Text.isCut_zero _
  case h_12 => exact isCut_ofCode_upTo
  case h_13 => exact isCut_ofUnicode rest
  all_goals exact Text.isCut_zero _

theorem isCut_escape (cs : List Char) : IsCut cs (escape cs).length := by
  cases cs with
  | nil => exact Text.isCut_zero _
  | cons c rest => exact (isCut_afterFirst c rest).cons c

/-- From a cut on, a string is read to a cut. -/
theorem isCut_stringBody {quote : Char} (hquote : quote.utf8Size = 1) (skip : Nat)
    (cs : List Char) (h : IsCut cs skip) :
    IsCut cs (skip + (stringBody quote skip cs).length) := by
  fun_induction stringBody quote skip cs with
  | case1 => exact h
  | case2 skip c rest hle ih =>
    have hrest := ih (Text.isCut_succ_cons_iff.mp h).2
    have hsum : c.utf8Size + (skip + 1 - c.utf8Size +
        (stringBody quote (skip + 1 - c.utf8Size) rest).length) =
        skip + 1 + (stringBody quote (skip + 1 - c.utf8Size) rest).length := by omega
    exact hsum ▸ hrest.cons c
  | case3 => exact h
  | case4 rest =>
    rw [Nat.zero_add, ← hquote]
    exact Text.isCut_utf8Size quote rest
  | case5 => exact h
  | case6 rest hquote' hline ih =>
    have hrest := ih (isCut_escape rest)
    rw [Nat.zero_add, Quoted.behind, Nat.add_assoc]
    exact hrest.cons '\\'
  | case7 c rest hc hline hback ih =>
    rw [Nat.zero_add, Quoted.behind]
    rw [Nat.zero_add] at ih
    exact (ih (Text.isCut_zero rest)).cons c

theorem isCut_string {quote : Char} (hquote : quote.utf8Size = 1) (rest : List Char) :
    IsCut (quote :: rest) (string quote (quote :: rest)).length := by
  have hbody := isCut_stringBody hquote 0 rest (Text.isCut_zero rest)
  rw [Nat.zero_add] at hbody
  have hrest : after 1 (quote :: rest) = rest := hquote ▸ Text.after_utf8Size quote rest
  rw [string, hrest, ← hquote]
  exact hbody.cons quote

/-! ### Templates and regular expressions -/

/-- Bytes of the sign that ends a part of a template. -/
def TemplateEnd.size : TemplateEnd → Nat
  | .backquote => 1
  | .substitution => 2
  | .endOfText => 0

/-- The text of a part of a template ends at a cut, and so does the sign after it. -/
theorem isCut_templateBody (cs : List Char) :
    IsCut cs (templateBody cs).1 ∧
      IsCut cs ((templateBody cs).1 + (templateBody cs).2.size) := by
  fun_induction templateBody cs with
  | case1 => exact ⟨Text.isCut_zero _, Text.isCut_zero _⟩
  | case2 rest => exact ⟨Text.isCut_zero _, Text.isCut_utf8Size '`' rest⟩
  | case3 c rest hc hopen =>
    obtain ⟨rfl, hbrace⟩ := hopen
    exact ⟨Text.isCut_zero _, (Text.isCut_utf8Size '$' rest).succ hbrace rfl⟩
  | case4 => exact ⟨Text.isCut_utf8Size '\\' [], Text.isCut_utf8Size '\\' []⟩
  | case5 c rest length ending hrest hc hopen ih =>
    rw [hrest] at ih
    simp only [Nat.add_assoc]
    exact ⟨(ih.1.cons c).cons '\\', (ih.2.cons c).cons '\\'⟩
  | case6 c rest hc hopen hback length ending hrest ih =>
    rw [hrest] at ih
    simp only [Nat.add_assoc]
    exact ⟨ih.1.cons c, ih.2.cons c⟩

theorem isCut_templatePart {whole part : Kind} (hc : c.utf8Size = 1) (rest : List Char) :
    IsCut (c :: rest) (templatePart whole part (c :: rest)).length := by
  have hrest : after 1 (c :: rest) = rest := hc ▸ Text.after_utf8Size c rest
  obtain ⟨htext, hsign⟩ := isCut_templateBody rest
  rw [templatePart, hrest]
  cases hbody : templateBody rest with
  | mk length ending =>
    rw [hbody] at htext hsign
    cases ending with
    | backquote =>
      have hcut : IsCut (c :: rest) (c.utf8Size + (length + 1)) := hsign.cons c
      rwa [hc, ← Nat.add_assoc] at hcut
    | substitution =>
      have hcut : IsCut (c :: rest) (c.utf8Size + (length + 2)) := hsign.cons c
      rwa [hc, ← Nat.add_assoc] at hcut
    | endOfText => exact hc ▸ htext.cons c

theorem isCut_regexBody (inClass : Bool) (cs : List Char) :
    IsCut cs (regexBody inClass cs).1 := by
  fun_induction regexBody inClass cs with
  | case1 => exact Text.isCut_zero _
  | case2 => exact Text.isCut_zero _
  | case3 => exact Text.isCut_utf8Size _ _
  | case4 inClass escaped rest length closed hrest hbreak ih =>
    rw [hrest] at ih
    rw [Nat.add_assoc]
    exact (ih.cons escaped).cons '\\'
  | case5 => exact Text.isCut_utf8Size _ _
  | case6 inClass c rest hbreak hback hclose inClass' length closed hrest ih =>
    rw [hrest] at ih
    exact ih.cons c

theorem isCut_regex (rest : List Char) (hc : c.utf8Size = 1) :
    IsCut (c :: rest) (Lexeme.regex (c :: rest)).length := by
  have hrest : after 1 (c :: rest) = rest := hc ▸ Text.after_utf8Size c rest
  have hbody : IsCut (c :: rest) (1 + (regexBody false rest).1) :=
    hc ▸ (isCut_regexBody false rest).cons c
  rw [Lexeme.regex, hrest]
  exact hbody.add (isCut_bytesWhile _ _)

/-! ### Punctuation -/

/-- Bytes below 128 are the characters that a text starts with. -/
theorem prefix_of_byteAt? {w : List Char} (hw : ∀ a ∈ w, a.utf8Size = 1)
    (h : ∀ i < w.length, byteAt? i cs = w[i]?) : w <+: cs := by
  induction w generalizing cs with
  | nil => exact List.nil_prefix
  | cons a w ih =>
    obtain ⟨ha, hw⟩ := List.forall_mem_cons.mp hw
    obtain ⟨rest, rfl⟩ := Text.exists_cons_of_byteAt? (h 0 (Nat.succ_pos _)) ha
    refine (List.prefix_cons_inj a).mpr (ih hw fun i hi => ?_)
    have hnext := h (i + 1) (by rw [List.length_cons]; omega)
    rwa [Text.byteAt?_succ_cons ha, List.getElem?_cons_succ] at hnext

/-- The same for bytes that were looked up one after another. -/
theorem prefix_of_map_byteAt? {w : List Char} {m : Nat} (hw : ∀ a ∈ w, a.utf8Size = 1)
    (h : w.map some = ((List.range m).map (byteAt? · cs)).take n) : w <+: cs := by
  refine prefix_of_byteAt? hw fun i hi => ?_
  have hlength := congrArg List.length h
  have hbyte := congrArg (·[i]?) h
  simp only [List.length_map, List.length_take, List.length_range] at hlength
  simp only [List.getElem?_map, List.getElem?_take, List.getElem?_eq_getElem hi, Option.map_some,
    List.getElem?_range (show i < m by omega), if_pos (show i < n by omega)] at hbyte
  rw [← Option.some.inj hbyte, List.getElem?_eq_getElem hi]

/-- The kinds of punctuation. -/
def marks : List Kind := Kind.punctuation ++ Kind.assignments

/-- A sign has the bytes that it is found by, and as many of them as it is long. -/
theorem punctuator?_eq_some {next next2 : Option Char} {k : Kind}
    (h : punctuator? c next next2 = some (k, n)) :
    k ∈ marks ∧ k.spelling.length = n ∧ k.spelling.map some = [some c, next, next2].take n := by
  unfold punctuator? at h
  repeat' split at h
  all_goals cases h
  all_goals exact ⟨by decide, rfl, rfl⟩

theorem greaterOperator?_eq_some {next next2 next3 : Option Char} {k : Kind}
    (h : greaterOperator? next next2 next3 = some (k, n)) :
    k ∈ marks ∧ k.spelling.length = 1 + n ∧
      k.spelling.map some = some '>' :: [next, next2, next3].take n := by
  unfold greaterOperator? at h
  split at h
  all_goals cases h
  all_goals exact ⟨by decide, rfl, rfl⟩

end Unchain.Token
