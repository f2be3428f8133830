import Unchain.Proofs.Term.Reads

/-!
# Reading names, parentheses, accesses and calls

What binds tightest is read by one rule: a name or a term in parentheses
(`legible_name`, `legible_parenthesized`), and a step for every access and every
call that follows it (`legible_property`, `legible_element`, `legible_call`).
The arguments of a call are read one by one up to the closing parenthesis
(`run_arguments`).
-/

namespace Unchain.Term

open Grammar Printer
open Syntax (NodeId NodeList)
open Token

variable {s s' : State} {cs rest tail : List Char} {l : Lexeme} {k : Kind} {e e' : Term}
  {fuel pos cost room : Nat} {id : Option NodeId}

theorem Ready.part (h : Ready fuel cost room s e rest) {cs : List Char}
    (htext : e.text ++ rest = e'.text ++ cs) (hnesting : e'.nesting ≤ e.nesting) :
    Ready fuel cost room s e' cs :=
  ⟨htext ▸ h.before, h.fuel, by have := h.room; omega⟩

/-! ### Names -/

/-- A name is accepted as what it is called. -/
theorem run_nameNode {x : PlainName} (h : Before s (x.text.toList ++ rest))
    (hbreaks : BreaksName rest) (hopens : Opens rest l) :
    ∃ id s', nameNode.run s = some (some id, s') ∧ Reached s s' ∧ s'.left < s.left ∧
      Before s' rest ∧ Holds s'.tree.part? (some id) (.identifier x.text) := by
  obtain ⟨l', hopens', hstands⟩ := h
  obtain rfl := hopens'.eq (opens_name x hbreaks)
  have htail :
      Text.after (Text.byteLength x.text.toList) (afterBlank (x.text.toList ++ rest)) = rest := by
    have hblank := afterBlank_text (.name x) rest
    rw [text] at hblank
    rw [hblank, Text.after_append]
  obtain ⟨s₁, hrun₁, hreached₁, hleft₁, hstands₁⟩ :=
    hstands.run_advance (by simp) htail hopens
  have hvalue : tokenValue.run s = some (x.text, s) := by
    rw [hstands.run_tokenValue]
    simp [Lexeme.verbatim]
  obtain ⟨id, s₂, hrun₂, hreached₂, hleft₂, hstands₂, hnode⟩ :=
    run_make hstands₁ (.identifier x.text) s.scanner.cursor.start
  refine ⟨id, s₂, ?_, hreached₁.trans hreached₂, by omega, ⟨l, hopens, hstands₂⟩, hnode⟩
  rw [nameNode, run_bind (run_tokenPos s), run_bind hvalue, run_bind hrun₁, hrun₂]

/-- A name, or a term in parentheses, is read before any access. -/
theorem readAsLeftHand_of_primary
    (h : ∀ (fuel : Nat) (s : State) (rest : List Char) (l : Lexeme), Opens rest l →
      BreaksName rest → Ready fuel 1 0 s e rest →
      Makes (constructionOrPrimary (run fuel)) s e (Before · rest)) : e.ReadAsLeftHand := by
  intro fuel s rest l hopens hbreaks hready
  refine (h fuel s rest l hopens hbreaks hready).enters.congr ?_
  rw [leftHandBody, run_bind (run_tokenPos s)]
  rfl

theorem run_constructionOrPrimary {rules : Rules} (h : Stands s cs l) (hk : l.kind ≠ .newKeyword) :
    (constructionOrPrimary rules).run s = (primaryExpression rules).run s := by
  rw [constructionOrPrimary, run_bind (h.run_at? _), decide_eq_false hk,
    if_neg Bool.false_ne_true]

theorem legible_name (x : PlainName) : (Term.name x).Legible := by
  refine .of_leftHand (.name x) (show Level.leftHand ≤ Level.primary by decide) ?_
  refine readAsLeftHand_of_primary fun fuel s rest l hopens hbreaks hready => ?_
  have hbefore : Before s (x.text.toList ++ rest) := by simpa only [text] using hready.before
  have ⟨l', hopens', hstands⟩ := hbefore
  obtain rfl := hopens'.eq (opens_name x hbreaks)
  obtain ⟨id, s', hrun, hreached, -, hbefore', hnode⟩ := run_nameNode hbefore hbreaks hopens
  refine ⟨some id, s', ?_, hreached, hbefore', .name hnode⟩
  rw [run_constructionOrPrimary hstands (by simp), primaryExpression, run_bind (run_tokenPos s),
    run_bind hstands.run_kind]
  show nameOrNothing.run s = _
  rw [nameOrNothing, run_bind hstands.run_atIdentifier?]
  exact hrun

/-! ### Parentheses -/

theorem legible_parenthesized (he : e.Tight) (h : e.Legible) : (Term.parenthesized e).Legible := by
  refine .of_leftHand (.parenthesized he) (show Level.leftHand ≤ Level.primary by decide) ?_
  refine readAsLeftHand_of_primary fun fuel s rest l hopens hbreaks hready => ?_
  obtain ⟨⟨l', hopens', hstands⟩, hfuel, hroom⟩ := hready
  have htext : (Term.parenthesized e).text ++ rest = '(' :: (e.text ++ (')' :: rest)) := by
    simp [text]
  rw [htext] at hopens' hstands
  obtain rfl := hopens'.eq (opens_paren _)
  have hfollows : Follows (')' :: rest) .closeParen rest :=
    .closer (k := .closeParen) (by decide) rest
  obtain ⟨s₁, hrun₁, hreached₁, hleft₁, hbefore₁⟩ :=
    run_advance_to hstands (by simp) he hfollows.breaksName
      (.inl (after_afterBlank (w := ['(']) rfl _))
  have hready₁ : Ready fuel 6 1 s₁ e (')' :: rest) :=
    ⟨hbefore₁, by omega, by rw [hreached₁.depth]; exact hroom⟩
  have ⟨l₁, _, hstands₁⟩ := hbefore₁
  obtain ⟨i, s₂, hrun₂, hreached₂, hnear₂, he₂⟩ :=
    (h.expression.rule hfollows (by decide) (by simp) hready₁).allowingIn hstands₁
  obtain ⟨l₂, hstands₂, hl₂, htail₂⟩ := hnear₂.exists_stands (by decide)
  obtain ⟨s₃, hrun₃, hreached₃, hleft₃, hstands₃⟩ :=
    hstands₂.run_advance (by simp [hl₂]) htail₂ hopens
  obtain ⟨i', s₄, hrun₄, hreached₄, -, hstands₄, hnode⟩ :=
    run_make hstands₃ (.parenthesized i) s.scanner.cursor.start
  refine ⟨some i', s₄, ?_, ((hreached₁.trans hreached₂).trans hreached₃).trans hreached₄,
    ⟨l, hopens, hstands₄⟩, .parenthesized hnode (he₂.grows (hreached₃.trans hreached₄).grows)⟩
  rw [run_constructionOrPrimary hstands (by simp), primaryExpression, run_bind (run_tokenPos s),
    run_bind hstands.run_kind]
  show (parenthesizedExpression (run fuel)).run s = _
  rw [parenthesizedExpression, run_bind (run_tokenPos s), run_bind hrun₁, expressionAllowingIn,
    run_bind hrun₂, run_bind (hstands₂.run_expect hl₂ hrun₃), hrun₄]

/-! ### Accesses -/

theorem legible_property {x : PlainName} (he : e.Tight) (hl : Level.leftHand ≤ e.level)
    (h : e.Legible) : (Term.property e x).Legible := by
  refine .of_leftHand (.property he hl) (Nat.le_refl Level.leftHand) ?_
  intro fuel s rest l hopens hbreaks hready
  have htext : (Term.property e x).text ++ rest = e.text ++ ('.' :: (x.text.toList ++ rest)) := by
    simp [text]
  have hready' := hready.part htext (Nat.le_of_eq (by simp only [nesting]))
  have hdot := opens_dot x rest
  refine (h.leftHand hl fuel s _ _ hdot (breaksName_cons (by decide) _) hready').again
    fun id s₁ hreached₁ hbefore₁ he₁ => ?_
  obtain ⟨l₁, hopens₁, hstands₁⟩ := hbefore₁
  obtain rfl := hopens₁.eq hdot
  have hname := opens_name x hbreaks
  obtain ⟨s₂, hrun₂, hreached₂, hleft₂, hstands₂⟩ :=
    hstands₁.run_advance (by simp) (after_afterBlank (w := ['.']) rfl _) hname
  obtain ⟨member, s₃, hrun₃, hreached₃, hleft₃, ⟨l₃, hopens₃, hstands₃⟩, hmember⟩ :=
    run_nameNode ⟨_, hname, hstands₂⟩ hbreaks hopens
  obtain ⟨i, s₄, hrun₄, hreached₄, hleft₄, hstands₄, hnode⟩ :=
    run_makeFlagged hstands₃ (.access .property id (some member) false) s.scanner.cursor.start
      { optionalChain := false } rfl
  refine ⟨some i, s₄, ?_, (hreached₂.trans hreached₃).trans hreached₄, by omega,
    ⟨l₃, hopens₃, hstands₄⟩, .property hnode (he₁.grows ?_) (hmember.grows hreached₄.grows)⟩
  · have hmemberName : memberName.run s₂ = some (some member, s₃) := by
      rw [memberName, run_bind hstands₂.run_kind]
      exact hrun₃
    rw [memberStep, run_bind hstands₁.run_kind]
    show (do
      advance
      let name ← memberName
      return Turn.again (← access .property s.scanner.cursor.start id name false)).run s₁ = _
    rw [run_bind hrun₂, run_bind hmemberName, access, run_bind hrun₄]
    rfl
  · exact ((hreached₂.trans hreached₃).trans hreached₄).grows

theorem legible_element {index : Term} (he : e.Tight) (hl : Level.leftHand ≤ e.level)
    (h : e.Legible) (hindex : index.Tight) (hi : index.Legible) :
    (Term.element e index).Legible := by
  refine .of_leftHand (.element he hl hindex) (Nat.le_refl Level.leftHand) ?_
  intro fuel s rest l hopens hbreaks hready
  have htext : (Term.element e index).text ++ rest =
      e.text ++ ('[' :: (index.text ++ (']' :: rest))) := by
    simp [text]
  have hnesting : (Term.element e index).nesting = max e.nesting (index.nesting + 1) := by
    rw [nesting]
  have hready' := hready.part htext (by omega)
  have hbracket := opens_bracket (index.text ++ (']' :: rest))
  refine (h.leftHand hl fuel s _ _ hbracket (breaksName_cons (by decide) _) hready').again
    fun id s₁ hreached₁ hbefore₁ he₁ => ?_
  obtain ⟨l₁, hopens₁, hstands₁⟩ := hbefore₁
  obtain rfl := hopens₁.eq hbracket
  have hfollows : Follows (']' :: rest) .closeBracket rest :=
    .closer (k := .closeBracket) (by decide) rest
  obtain ⟨s₂, hrun₂, hreached₂, hleft₂, hbefore₂⟩ :=
    run_advance_to hstands₁ (by simp) hindex hfollows.breaksName
      (.inl (after_afterBlank (w := ['[']) rfl _))
  have hready₂ : Ready fuel 6 1 s₂ index (']' :: rest) := by
    have hleft := hreached₁.left_le
    have hfuel := hready.fuel
    have hroom := hready.room
    exact ⟨hbefore₂, by omega, by rw [hreached₂.depth, hreached₁.depth]; omega⟩
  have ⟨l₂, _, hstands₂⟩ := hbefore₂
  obtain ⟨member, s₃, hrun₃, hreached₃, hnear₃, hi₃⟩ :=
    (hi.expression.rule hfollows (by decide) (by simp) hready₂).allowingIn hstands₂
  obtain ⟨l₃, hstands₃, hl₃, htail₃⟩ := hnear₃.exists_stands (by decide)
  obtain ⟨s₄, hrun₄, hreached₄, hleft₄, hstands₄⟩ :=
    hstands₃.run_advance (by simp [hl₃]) htail₃ hopens
  obtain ⟨i, s₅, hrun₅, hreached₅, hleft₅, hstands₅, hnode⟩ :=
    run_makeFlagged hstands₄ (.access .element id member false) s.scanner.cursor.start
      { optionalChain := false } rfl
  have hreached := ((hreached₂.trans hreached₃).trans hreached₄).trans hreached₅
  have hleft := hreached₃.left_le
  refine ⟨some i, s₅, ?_, hreached, by omega, ⟨l, hopens, hstands₅⟩,
    .element hnode (he₁.grows hreached.grows) (hi₃.grows (hreached₄.trans hreached₅).grows)⟩
  rw [memberStep, run_bind hstands₁.run_kind]
  show (do
    advance
    return Turn.again (← elementAccess (run fuel) s.scanner.cursor.start id false)).run s₁ = _
  have haccess : (elementAccess (run fuel) s.scanner.cursor.start id false).run s₂ =
      some (some i, s₅) := by
    rw [elementAccess, expressionAllowingIn, run_bind hrun₃,
      run_bind (hstands₃.run_expect hl₃ hrun₄), access, hrun₅]
  rw [run_bind hrun₂, run_bind haccess]
  rfl

/-! ### Calls -/

/-- One argument and the comma after it. -/
def argumentStep (rules : Rules) :
    Array NodeId × Bool → Reader (Turn (Array NodeId × Bool)) := fun (nodes, comma) => do
  if ← atAny? [.closeParen, .endOfFile] then return .done (nodes, comma)
  else
    match ← listElement rules with
    | none => return .done (nodes, false)
    | some argument =>
      return if ← accept .comma then .again (nodes.push argument, true)
        else .done (nodes.push argument, false)

theorem argumentList_eq (rules : Rules) : argumentList rules = (do
    let pos ← tokenPos
    let _ ← expect .openParen
    let (nodes, trailingComma) ← repeating (#[], false) (argumentStep rules)
    let _ ← expect .closeParen
    return listOf nodes pos (← lastStop) trailingComma) := rfl

/-- What can be read as an argument. -/
structure IsArgument (a : Term) : Prop where
  tight : a.Tight
  level : Level.assignment ≤ a.level
  legible : a.Legible

variable {arguments : List Term}

/-- An argument is read, and it depends on what follows whether the arguments go on. -/
theorem run_argumentStep (nodes : Array NodeId) (comma : Bool) (h : e.IsArgument)
    (hfollows : Follows rest k tail) (hk : k ∈ enders) (hready : Ready fuel 5 1 s e rest) :
    ∃ i s', Reached s s' ∧ Near s' rest k tail ∧ Represents s'.tree.part? (some i) e ∧
      (argumentStep (run fuel) (nodes, comma)).run s = (do
        return if ← accept .comma then Turn.again (nodes.push i, true)
          else Turn.done (nodes.push i, false)).run s' := by
  have ⟨l, hopens, hstands⟩ := hready.before
  obtain ⟨l', hopens', hl⟩ := exists_opens h.tight hfollows.breaksName
  obtain rfl := hopens.eq hopens'
  have hall : ∀ k ∈ starters, [Kind.closeParen, .endOfFile].contains k = false ∧
      k ≠ .ellipsis := by decide
  obtain ⟨hended, hellipsis⟩ := hall l.kind hl
  obtain ⟨id, s', hrun, hreached, hnear, he⟩ :=
    ((h.legible.assignment h.level).rule hfollows hk hready).allowingIn hstands
  obtain ⟨i, rfl⟩ := he.exists_eq_some
  refine ⟨i, s', hreached, hnear, he, ?_⟩
  have helement : (listElement (run fuel)).run s = some (some i, s') := by
    rw [listElement, run_bind (hstands.run_at? _), decide_eq_false hellipsis]
    exact hrun
  simp only [argumentStep]
  rw [run_bind (hstands.run_atAny? _), hended, if_neg Bool.false_ne_true, run_bind helement]

/-- The text of arguments starts with the first of them. -/
theorem argumentsText_cons (a : Term) (more : List Term) (rest : List Char) :
    ∃ cs, argumentsText (a :: more) ++ (')' :: rest) = a.text ++ cs ∧ BreaksName cs := by
  cases more with
  | nil => exact ⟨')' :: rest, rfl, breaksName_cons (by decide) _⟩
  | cons b more =>
    exact ⟨',' :: ' ' :: (argumentsText (b :: more) ++ (')' :: rest)), by simp [argumentsText],
      breaksName_cons (by decide) _⟩

/-- Arguments are read up to the closing parenthesis, and no comma is left over. -/
theorem run_arguments (nodes : Array NodeId) (comma : Bool) (h : ∀ a ∈ arguments, a.IsArgument)
    {n : Nat}
    (hbefore : Before s (argumentsText arguments ++ (')' :: rest)))
    (hcomma : arguments = [] → comma = false) (hfuel : 8 * s.left + 5 ≤ fuel)
    (hroom : s.depth + argumentsNesting arguments ≤ Limits.grammarDepth) (hn : s.left < n) :
    ∃ (ids : List NodeId) (s' : State),
      (repeatUpTo (argumentStep (run fuel)) n (nodes, comma)).run s =
        some ((nodes ++ ids.toArray, false), s') ∧
      Reached s s' ∧ Near s' (')' :: rest) .closeParen rest ∧ ids.length = arguments.length ∧
      ∀ p ∈ ids.zip arguments, Represents s'.tree.part? (some p.1) p.2 := by
  have hclose : Follows (')' :: rest) .closeParen rest :=
    .closer (k := .closeParen) (by decide) rest
  induction arguments generalizing s n nodes comma with
  | nil =>
    obtain rfl := hcomma rfl
    obtain ⟨n, rfl⟩ : ∃ m, n = m + 1 := ⟨n - 1, by omega⟩
    have hnear : Near s (')' :: rest) .closeParen rest := near_of_before hbefore hclose
    obtain ⟨l, hstands, hl, -⟩ := hnear.exists_stands (by decide)
    have hstep : (argumentStep (run fuel) (nodes, false)).run s =
        some (.done (nodes, false), s) := by
      simp only [argumentStep]
      rw [run_bind (hstands.run_atAny? _), hl]
      rfl
    refine ⟨[], s, ?_, hstands.sound.reached, hnear, rfl, (by simp)⟩
    rw [repeatUpTo, run_bind hstep]
    simp
  | cons a more ih =>
    obtain ⟨ha, hmore⟩ := List.forall_mem_cons.mp h
    obtain ⟨n, rfl⟩ : ∃ m, n = m + 1 := ⟨n - 1, by omega⟩
    simp only [argumentsNesting] at hroom
    -- Whether there is a next argument decides whether a comma is read after this one.
    cases more with
    | nil =>
      obtain ⟨i, s₁, hreached₁, hnear₁, hi, hrun₁⟩ :=
        run_argumentStep nodes comma ha hclose (by decide)
          ⟨hbefore, hfuel, by omega⟩
      obtain ⟨l, hstands₁, hl, -⟩ := hnear₁.exists_stands (by decide)
      refine ⟨[i], s₁, ?_, hreached₁, hnear₁, rfl, by simpa using hi⟩
      rw [run_bind (hstands₁.run_accept_of_ne (by rw [hl]; decide))] at hrun₁
      rw [repeatUpTo, run_bind hrun₁]
      simp
    | cons b more =>
      have hfollows : Follows (',' :: ' ' :: (argumentsText (b :: more) ++ (')' :: rest))) .comma
          (' ' :: (argumentsText (b :: more) ++ (')' :: rest))) :=
        .closer (k := .comma) (by decide) _
      have htext : argumentsText (a :: b :: more) ++ (')' :: rest) =
          a.text ++ (',' :: ' ' :: (argumentsText (b :: more) ++ (')' :: rest))) := by
        simp [argumentsText]
      obtain ⟨i, s₁, hreached₁, hnear₁, hi, hrun₁⟩ :=
        run_argumentStep nodes comma ha hfollows (by decide)
          ⟨htext ▸ hbefore, hfuel, by omega⟩
      obtain ⟨l, hstands₁, hl, htail⟩ := hnear₁.exists_stands (by decide)
      obtain ⟨cs, hcs, hbreaks⟩ := argumentsText_cons b more rest
      obtain ⟨s₂, hrun₂, hreached₂, hleft₂, hbefore₂⟩ := run_advance_to hstands₁ (by simp [hl])
        (hmore b List.mem_cons_self).tight hbreaks (.inr (hcs ▸ htail))
      have hleft₁ := hreached₁.left_le
      have hdepth := (hreached₁.trans hreached₂).depth
      obtain ⟨ids, s₃, hrun₃, hreached₃, hnear₃, hlength, hids⟩ :=
        @ih s₂ (nodes.push i) true hmore n (hcs ▸ hbefore₂) (by simp) (by omega)
          (by rw [hdepth]; omega) (by omega : s₂.left < n)
      refine ⟨i :: ids, s₃, ?_, (hreached₁.trans hreached₂).trans hreached₃, hnear₃,
        by simpa using hlength, ?_⟩
      · rw [run_bind (hstands₁.run_accept hl hrun₂)] at hrun₁
        rw [repeatUpTo, run_bind hrun₁]
        simpa using hrun₃
      · rw [List.zip_cons_cons]
        exact List.forall_mem_cons.mpr ⟨hi.grows (hreached₂.trans hreached₃).grows, hids⟩

/-- A text starts with the arguments, or with the parenthesis after them. -/
theorem opens_arguments (h : ∀ a ∈ arguments, a.IsArgument) (rest : List Char) :
    ∃ l, Opens (argumentsText arguments ++ (')' :: rest)) l := by
  cases arguments with
  | nil => exact ⟨_, opens_closedMark (k := .closeParen) (by decide) rest⟩
  | cons a more =>
    obtain ⟨cs, hcs, hbreaks⟩ := argumentsText_cons a more rest
    obtain ⟨l, hopens, -⟩ := exists_opens (h a List.mem_cons_self).tight hbreaks
    exact ⟨l, hcs ▸ hopens⟩

theorem run_argumentList (h : ∀ a ∈ arguments, a.IsArgument)
    (hbefore : Before s ('(' :: (argumentsText arguments ++ (')' :: rest)))) (hopens : Opens rest l)
    (hfuel : 8 * s.left ≤ fuel)
    (hroom : s.depth + argumentsNesting arguments ≤ Limits.grammarDepth) :
    ∃ list s', (argumentList (run fuel)).run s = some (list, s') ∧ Reached s s' ∧
      s'.left < s.left ∧ Stands s' rest l ∧ list.trailingComma = false ∧
      list.nodes.length = arguments.length ∧
      ∀ p ∈ list.nodes.zip arguments, Represents s'.tree.part? (some p.1) p.2 := by
  obtain ⟨l₀, hopens₀, hstands₀⟩ := hbefore
  obtain rfl := hopens₀.eq (opens_paren _)
  obtain ⟨l₁, hopens₁⟩ := opens_arguments h rest
  obtain ⟨s₁, hrun₁, hreached₁, hleft₁, hstands₁⟩ :=
    hstands₀.run_advance (by simp) (after_afterBlank (w := ['(']) rfl _) hopens₁
  obtain ⟨ids, s₂, hrun₂, hreached₂, hnear₂, hlength, hids⟩ :=
    run_arguments #[] false h ⟨l₁, hopens₁, hstands₁⟩ (fun _ => rfl)
      (by omega : _ ≤ fuel) (by rw [hreached₁.depth]; exact hroom) hstands₁.sound.left_lt_limit
  obtain ⟨l₂, hstands₂, hl₂, htail₂⟩ := hnear₂.exists_stands (by decide)
  obtain ⟨s₃, hrun₃, hreached₃, hleft₃, hstands₃⟩ :=
    hstands₂.run_advance (by simp [hl₂]) htail₂ hopens
  have hleft₂ := hreached₂.left_le
  refine ⟨listOf ids.toArray s.scanner.cursor.start s₃.lastStop false, s₃, ?_,
    (hreached₁.trans hreached₂).trans hreached₃, by omega, hstands₃, rfl, hlength,
    fun p hp => (hids p hp).grows hreached₃.grows⟩
  have hopen : (expect .openParen).run s = some (true, s₁) := hstands₀.run_expect rfl hrun₁
  have hloop : (repeating (#[], false) (argumentStep (run fuel))).run s₁ =
      some ((ids.toArray, false), s₂) := by
    rw [repeating, run_bind (run_get s₁), hrun₂, Array.empty_append]
  rw [argumentList_eq, run_bind (run_tokenPos s), run_bind hopen, run_bind hloop]
  show (do
    let _ ← expect .closeParen
    return listOf ids.toArray s.scanner.cursor.start (← lastStop) false).run s₂ = _
  rw [run_bind (hstands₂.run_expect hl₂ hrun₃), run_bind (run_lastStop s₃)]
  rfl

theorem legible_call (he : e.Tight) (hl : Level.leftHand ≤ e.level) (h : e.Legible)
    (harguments : ∀ a ∈ arguments, a.IsArgument) : (Term.call e arguments).Legible := by
  have htight : (Term.call e arguments).Tight :=
    .call he hl (fun a ha => (harguments a ha).tight) fun a ha => (harguments a ha).level
  refine .of_leftHand htight (Nat.le_refl Level.leftHand) ?_
  intro fuel s rest l hopens hbreaks hready
  have htext : (Term.call e arguments).text ++ rest =
      e.text ++ ('(' :: (argumentsText arguments ++ (')' :: rest))) := by
    simp [text]
  have hnesting : (Term.call e arguments).nesting = max e.nesting (argumentsNesting arguments) := by
    rw [nesting]
  have hparen := opens_paren (argumentsText arguments ++ (')' :: rest))
  refine (h.leftHand hl fuel s _ _ hparen (breaksName_cons (by decide) _)
    (hready.part htext (by omega))).again fun id s₁ hreached₁ hbefore₁ he₁ => ?_
  have hleft₁ := hreached₁.left_le
  have hfuel := hready.fuel
  have hroom := hready.room
  obtain ⟨list, s₂, hrun₂, hreached₂, hleft₂, hstands₂, hcomma, hlength, hlist⟩ :=
    run_argumentList harguments hbefore₁ hopens (by omega : _ ≤ fuel)
      (by rw [hreached₁.depth]; omega)
  obtain ⟨i, s₃, hrun₃, hreached₃, hleft₃, hstands₃, hnode⟩ :=
    run_makeFlagged hstands₂ (.call .call id none (some list)) s.scanner.cursor.start
      {} rfl
  obtain ⟨l₁, hopens₁, hstands₁⟩ := hbefore₁
  obtain rfl := hopens₁.eq hparen
  refine ⟨some i, s₃, ?_, hreached₂.trans hreached₃, by omega, ⟨l, hopens, hstands₃⟩,
    .call hnode hcomma (he₁.grows (hreached₂.trans hreached₃).grows) hlength
      fun p hp => (hlist p hp).grows hreached₃.grows⟩
  have hcall : (Grammar.call (run fuel) s.scanner.cursor.start id none {}).run s₁ =
      some (some i, s₃) := by
    rw [Grammar.call, run_bind hrun₂, hrun₃]
  rw [memberStep, run_bind hstands₁.run_kind]
  show (do
    return Turn.again (← Grammar.call (run fuel) s.scanner.cursor.start id none {})).run s₁ = _
  rw [run_bind hcall]
  rfl

end Unchain.Term
