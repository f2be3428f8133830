import Unchain.Proofs.Token.Readers

/-!
# Words that may be bound

A word may be bound if it is the text of a name and the language does not reserve
it (`MayBind`). A token that the grammar takes for a name is such a word
(`mayBind_word`), and so is a name after which there is an underscore and more,
because no word of the language has an underscore (`mayBind_append_underscore`).
-/

namespace Unchain.Token

/-- A text of a name that is no reserved word. -/
def MayBind (text : String) : Prop :=
  isName text = true ∧ (Kind.keyword? text).any Kind.isReservedWord = false

instance (text : String) : Decidable (MayBind text) := inferInstanceAs (Decidable (_ ∧ _))

/-! ### Words of the language -/

/-- A keyword is found by its word alone. -/
theorem Kind.mem_words_of_keyword? {text : String} {k : Kind} (h : Kind.keyword? text = some k) :
    (text, k) ∈ words := by
  obtain ⟨before, after, hwords, -⟩ := List.lookup_eq_some_iff.mp h
  exact hwords ▸ List.mem_append_right _ List.mem_cons_self

/-- A keyword is spelled as the word that it was found by: the two tables agree. -/
theorem Kind.spelling?_of_keyword? {text : String} {k : Kind} (h : Kind.keyword? text = some k) :
    k.spelling? = some text := by
  have hall : ∀ entry ∈ words, entry.2.spelling? = some entry.1 := by decide +kernel
  exact hall _ (Kind.mem_words_of_keyword? h)

/-- A word that may be a name in some places is reserved in none. -/
theorem Kind.not_isReservedWord_of_isIdentifierLike {k : Kind} (h : k.isIdentifierLike = true) :
    k.isReservedWord = false := by
  cases k <;> first | rfl | cases h

theorem Kind.notMem_underscore_of_keyword? {text : String} {k : Kind}
    (h : Kind.keyword? text = some k) : '_' ∉ text.toList := by
  have hwords : ∀ entry ∈ words, '_' ∉ entry.1.toList := by decide +kernel
  exact hwords _ (Kind.mem_words_of_keyword? h)

/-! ### Names -/

theorem isNamePart_of_isNameStart {c : Char} (h : isNameStart c = true) : isNamePart c = true := by
  simp [isNamePart, h]

/-- The characters of a word. -/
theorem value_word (cs : List Char) : (word cs).value = cs.takeWhile isNamePart :=
  upTo_bytesWhile isNamePart cs

theorem kind_word (cs : List Char) :
    (word cs).kind = (Kind.keyword? (String.ofList (word cs).value)).getD .identifier := rfl

/-- A word that the grammar takes for a name may be bound. -/
theorem mayBind_word {c : Char} {rest : List Char} (h : isNameStart c = true)
    (hk : (word (c :: rest)).kind.isIdentifierLike = true) :
    MayBind (String.ofList (word (c :: rest)).value) := by
  refine ⟨?_, ?_⟩
  · rw [value_word, isName, String.toList_ofList,
      List.takeWhile_cons_of_pos (isNamePart_of_isNameStart h), isNameText, h, Bool.true_and]
    exact List.all_takeWhile
  · rw [kind_word] at hk
    cases hword : Kind.keyword? (String.ofList (word (c :: rest)).value) with
    | none => rfl
    | some k =>
      rw [hword, Option.getD_some] at hk
      exact Kind.not_isReservedWord_of_isIdentifierLike hk

/-- Behind the underscore of a name there may be whatever can follow in it. -/
theorem mayBind_append_underscore {base more : String} (hbase : isName base = true)
    (hmore : ∀ c ∈ more.toList, isNamePart c = true) : MayBind (base ++ "_" ++ more) := by
  have htext : (base ++ "_" ++ more).toList = base.toList ++ '_' :: more.toList := by simp
  refine ⟨?_, ?_⟩
  · unfold isName at hbase ⊢
    rw [htext]
    cases hchars : base.toList with
    | nil =>
      rw [hchars] at hbase
      cases hbase
    | cons first rest =>
      rw [hchars, isNameText, Bool.and_eq_true] at hbase
      rw [List.cons_append, isNameText, hbase.1, Bool.true_and, List.all_append, hbase.2,
        Bool.true_and, List.all_cons, List.all_eq_true.mpr hmore]
      rfl
  · rw [Option.any_eq_false]
    intro k hk
    refine absurd ?_ (Kind.notMem_underscore_of_keyword? hk)
    rw [htext]
    exact List.mem_append_right _ List.mem_cons_self

end Unchain.Token
