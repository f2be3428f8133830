import Unchain.Proofs.Term.LeftHand

/-!
# Reading operators

The printer and the grammar have a table each of how tight operators bind, and
they agree (`levels_agree`): what the printer puts no parentheses around is
what the grammar takes as an operand. Then every term is read by the rule of its
operator, and with the rules for what binds tightest every term is read as it
was printed (`Tight.legible`).
-/

namespace Unchain.Term

open Grammar Printer
open Syntax (NodeId)
open Token

variable {s s' : State} {cs rest tail : List Char} {l : Lexeme} {k : Kind} {e e' left right : Term}
  {fuel pos level : Nat} {id : Option NodeId}

/-! ### Levels -/

/-- The levels of the printer and of the grammar for one operator. -/
theorem levels_agree : ∀ k ∈ tightOperators,
    bindingLevel k = Level.ofOperator k + 1 ∧
      Level.coalesce ≤ Level.ofOperator k ∧ Level.ofOperator k ≤ Level.exponent ∧
      (k = .power ↔ Level.ofOperator k = Level.exponent) ∧
      Env.sideLevels k = if k = .power then (Level.unary, Level.exponent)
        else (Level.ofOperator k, Level.ofOperator k + 1) := by
  decide

section Levels

variable (hk : k ∈ tightOperators)
include hk

theorem stops_of_left (hl : (Env.sideLevels k).1 ≤ e.level) : e.Stops k := by
  obtain ⟨hlevel, -, hle, hpower, hsides⟩ := levels_agree k hk
  rw [hsides] at hl
  split at hl
  · have hunary : Level.ofOperator k ≤ Level.unary := Nat.le_trans hle (by decide)
    exact ⟨by omega, fun _ => hl⟩
  · next hne => exact ⟨by omega, fun heq => absurd heq hne⟩

theorem over_of_left (hl : (Env.sideLevels k).1 ≤ e.level) (hbinds : binds k level = true) :
    e.Over level := by
  obtain ⟨hlevel, -, hle, hpower, hsides⟩ := levels_agree k hk
  rw [hsides] at hl
  unfold binds at hbinds
  split at hl
  · next heq =>
    rw [if_pos heq, decide_eq_true_eq] at hbinds
    have hunary : Level.ofOperator k + 1 ≤ Level.unary := Nat.succ_le_succ hle
    exact .inl (by dsimp only at hl; omega)
  · next hne =>
    rw [if_neg hne, decide_eq_true_eq] at hbinds
    exact .inl (by dsimp only at hl; omega)

theorem over_of_right (hr : (Env.sideLevels k).2 ≤ e.level) : e.Over (bindingLevel k) := by
  obtain ⟨hlevel, -, hle, hpower, hsides⟩ := levels_agree k hk
  rw [hsides] at hr
  unfold Over
  split at hr
  · next heq =>
    have hexponent := hpower.mp heq
    dsimp only at hr
    omega
  · exact .inl (by dsimp only at hr; omega)

variable {k' : Kind} (hstops : bindingLevel k' ≤ Level.ofOperator k + 1 ∧
  (k' = .power → Level.unary ≤ Level.ofOperator k))
include hstops

/-- Where a term with the operator ends its right side ends. -/
theorem stops_of_right (hr : (Env.sideLevels k).2 ≤ e.level) : e.Stops k' := by
  obtain ⟨hlevel, -, hle, hpower, hsides⟩ := levels_agree k hk
  have hunary : ¬ Level.unary ≤ Level.exponent := by decide
  rw [hsides] at hr
  refine ⟨?_, fun heq => absurd (Nat.le_trans (hstops.2 heq) hle) hunary⟩
  split at hr
  · next heq =>
    have hexponent := hpower.mp heq
    dsimp only at hr
    omega
  · dsimp only at hr
    omega

theorem not_binds_of_stops : binds k' (bindingLevel k) = false := by
  obtain ⟨hlevel, -, hle, hpower, hsides⟩ := levels_agree k hk
  have hunary : ¬ Level.unary ≤ Level.exponent := by decide
  have hne : k' ≠ .power := fun heq => absurd (Nat.le_trans (hstops.2 heq) hle) hunary
  rw [binds, if_neg hne, decide_eq_false_iff_not]
  omega

end Levels

theorem binds_of_over (hk : k ∈ tightOperators) (hover : level ≤ Level.ofOperator k ∨
    (Level.ofOperator k = Level.exponent ∧ level ≤ Level.exponent + 1)) : binds k level = true := by
  obtain ⟨hlevel, -, hle, hpower, hsides⟩ := levels_agree k hk
  unfold binds
  split
  · rw [decide_eq_true_eq]
    omega
  · next hne =>
    have hexponent : Level.ofOperator k ≠ Level.exponent := fun heq => hne (hpower.mpr heq)
    rw [decide_eq_true_eq]
    omega

/-! ### Before and after an operand -/

theorem run_unaryBody_prefixed {rules : Rules} (hk : l.kind ∈ signs) (h : Stands s cs l) :
    (unaryBody rules).run s = (do
      advance
      let operand ← rules .unary
      make (.prefixed l.kind operand) s.scanner.cursor.start).run s := by
  rw [unaryBody, run_bind (run_tokenPos s), run_bind h.run_kind]
  simp only [signs, List.mem_cons, List.not_mem_nil, or_false] at hk
  rcases hk with hk | hk | hk | hk | hk | hk <;> simp only [hk] <;>
    rw [run_bind h.run_kind, hk]

theorem legible_prefixed {sign : { k // k ∈ signs }} (he : e.Tight) (hl : Level.unary ≤ e.level)
    (h : e.Legible) : (Term.prefixed sign e).Legible := by
  refine .of_unary (.prefixed he hl) (show Level.unary < Level.leftHand by decide) ?_
  intro fuel s rest k tail hfollows hready
  have htext : (Term.prefixed sign e).text ++ rest =
      sign.val.spelling ++ (gap sign e ++ (e.text ++ rest)) := by
    simp [text]
  obtain ⟨⟨l, hopens, hstands⟩, hfuel, hroom⟩ := hready
  rw [htext] at hopens hstands
  obtain rfl := hopens.eq (opens_prefixed he hl rest)
  have hsigns : ∀ k ∈ signs, k ≠ .endOfFile ∧ k.spelling.head?.any (· ≠ ' ') = true := by decide
  obtain ⟨hend, hhead⟩ := hsigns sign sign.property
  have htail : gap sign e ++ (e.text ++ rest) = e.text ++ rest ∨
      gap sign e ++ (e.text ++ rest) = ' ' :: (e.text ++ rest) := by
    unfold gap
    split
    · split
      · exact .inr rfl
      · exact .inl rfl
    · exact .inl rfl
  obtain ⟨s₁, hrun₁, hreached₁, hleft₁, hbefore₁⟩ :=
    run_advance_to hstands hend he hfollows.breaksName (by
      rw [show (mark sign).length = Text.byteLength sign.val.spelling from rfl,
        after_afterBlank hhead]
      exact htail)
  have hready₁ : Ready fuel 3 0 s₁ e rest :=
    ⟨hbefore₁, by omega, by rw [hreached₁.depth]; exact hroom⟩
  obtain ⟨id, s₂, hrun₂, hreached₂, ⟨l₂, hstands₂, hjoins₂⟩, he₂⟩ :=
    (h.unary hl).rule hfollows hready₁
  obtain ⟨i, s₃, hrun₃, hreached₃, -, hstands₃, hnode⟩ :=
    run_make hstands₂ (.prefixed sign id) s.scanner.cursor.start
  refine ⟨some i, s₃, ?_, (hreached₁.trans hreached₂).trans hreached₃, ⟨l₂, hstands₃, hjoins₂⟩,
    .prefixed hnode (he₂.grows hreached₃.grows)⟩
  rw [run_unaryBody_prefixed sign.property hstands, run_bind hrun₁, run_bind hrun₂]
  exact hrun₃

theorem run_unaryBody_word {rules : Rules} {kind : Syntax.UnaryKind} (hkind : kind ∈ words)
    (hk : l.kind = keyword kind) (h : Stands s cs l) :
    (unaryBody rules).run s = (wordOperator rules kind).run s := by
  rw [unaryBody, run_bind (run_tokenPos s), run_bind h.run_kind, hk]
  simp only [words, List.mem_cons, List.not_mem_nil, or_false] at hkind
  rcases hkind with rfl | rfl | rfl | rfl
  · simp only [keyword]
    rw [run_bind (run_get s), h.context]
    rfl
  · rfl
  · rfl
  · rfl

theorem legible_word {kind : { k // k ∈ words }} (he : e.Tight) (hl : Level.unary ≤ e.level)
    (h : e.Legible) : (Term.word kind e).Legible := by
  refine .of_unary (.word he hl) (show Level.unary < Level.leftHand by decide) ?_
  intro fuel s rest k tail hfollows hready
  have htext : (Term.word kind e).text ++ rest =
      (Env.unaryWord kind).toList ++ (' ' :: (e.text ++ rest)) := by
    simp [text]
  obtain ⟨⟨l, hopens, hstands⟩, hfuel, hroom⟩ := hready
  rw [htext] at hopens hstands
  obtain rfl := hopens.eq (opens_keyword kind (breaksName_cons (by decide) _))
  have hwords : ∀ k ∈ words, keyword k ≠ .endOfFile ∧
      (Env.unaryWord k).toList.head?.any (· ≠ ' ') = true := by decide
  obtain ⟨hend, hhead⟩ := hwords kind kind.property
  obtain ⟨s₁, hrun₁, hreached₁, hleft₁, hbefore₁⟩ :=
    run_advance_to hstands hend he hfollows.breaksName (.inr (after_afterBlank hhead _))
  have hready₁ : Ready fuel 3 0 s₁ e rest :=
    ⟨hbefore₁, by omega, by rw [hreached₁.depth]; exact hroom⟩
  obtain ⟨id, s₂, hrun₂, hreached₂, ⟨l₂, hstands₂, hjoins₂⟩, he₂⟩ :=
    (h.unary hl).rule hfollows hready₁
  obtain ⟨i, s₃, hrun₃, hreached₃, -, hstands₃, hnode⟩ :=
    run_make hstands₂ (.unary kind id) s.scanner.cursor.start
  refine ⟨some i, s₃, ?_, (hreached₁.trans hreached₂).trans hreached₃, ⟨l₂, hstands₃, hjoins₂⟩,
    .word hnode (he₂.grows hreached₃.grows)⟩
  rw [run_unaryBody_word kind.property rfl hstands, wordOperator, run_bind (run_tokenPos s),
    run_bind hrun₁, run_bind hrun₂, hrun₃]

theorem legible_suffixed {sign : { k // k ∈ suffixes }} (he : e.Tight)
    (hl : Level.leftHand ≤ e.level) (h : e.Legible) : (Term.suffixed sign e).Legible := by
  refine .of_unary (.suffixed he hl) (show Level.suffix < Level.leftHand by decide) ?_
  intro fuel s rest k tail hfollows hready
  have htext : (Term.suffixed sign e).text ++ rest = e.text ++ (sign.val.spelling ++ rest) := by
    simp [text]
  have ⟨l, hopens, hstands⟩ := hready.before
  have htight : (Term.suffixed sign e).Tight := .suffixed he hl
  have hkind := kind_of_suffix htight (Nat.le_refl Level.suffix) hopens hfollows.breaksName
  have hsuffixes : ∀ k ∈ suffixes, k ∉ continuers ∧ [Kind.plusPlus, .minusMinus].contains k = true ∧
      k ≠ .endOfFile ∧ k.spelling.head?.any (· ≠ ' ') = true := by decide
  obtain ⟨hcontinuer, hsuffix, hend, hhead⟩ := hsuffixes sign sign.property
  obtain ⟨hopens', hbreaks⟩ := opens_suffix sign rest
  obtain ⟨id, s₁, hrun₁, hreached₁, ⟨l₁, hopens₁, hstands₁⟩, he₁⟩ :=
    (h.leftHand hl).rule hopens' hbreaks hcontinuer
      (hready.part htext (Nat.le_of_eq (by simp only [nesting])))
  obtain rfl := hopens₁.eq hopens'
  obtain ⟨l₂, hopens₂, -⟩ := hfollows.exists_opens
  obtain ⟨s₂, hrun₂, hreached₂, -, hstands₂⟩ :=
    hstands₁.run_advance hend (after_afterBlank hhead rest) hopens₂
  obtain ⟨i, s₃, hrun₃, hreached₃, -, hstands₃, hnode⟩ :=
    run_make hstands₂ (.suffixed sign id) s.scanner.cursor.start
  refine ⟨some i, s₃, ?_, (hreached₁.trans hreached₂).trans hreached₃,
    near_of_before ⟨l₂, hopens₂, hstands₃⟩ hfollows,
    .suffixed hnode (he₁.grows (hreached₂.trans hreached₃).grows)⟩
  have hsign : [Kind.plusPlus, .minusMinus].contains (mark sign).kind = true := hsuffix
  rw [run_unaryBody hkind hstands, suffixedExpression, run_bind (run_tokenPos s), run_bind hrun₁,
    run_bind (hstands₁.run_atAny? _), run_bind hstands₁.run_lineBreakBefore, hsign]
  show (do
    let operator ← kind
    advance
    make (.suffixed operator id) s.scanner.cursor.start).run s₁ = _
  rw [run_bind hstands₁.run_kind, run_bind hrun₂]
  exact hrun₃

/-! ### Between two operands -/

section Binary

variable {operator : { k // k ∈ operators }} (hleft : left.Tight) (hright : right.Tight)
  (hl : (Env.sideLevels operator).1 ≤ left.level) (hr : (Env.sideLevels operator).2 ≤ right.level)
  (h : left.Legible) (h' : right.Legible)

include hleft hright hl hr h h'

theorem legible_tight (hk : operator.val ∈ tightOperators) :
    (Term.binary left operator right).Legible := by
  obtain ⟨hlevel, hcoalesce, hle, -, hsides⟩ := levels_agree operator hk
  have hcl : Level.coalesce ≤ left.level := by
    rw [hsides] at hl
    split at hl
    · exact Nat.le_trans (by decide) hl
    · exact Nat.le_trans hcoalesce hl
  have hcr : Level.coalesce ≤ right.level := by
    rw [hsides] at hr
    split at hr
    · exact Nat.le_trans (by decide) hr
    · exact Nat.le_trans hcoalesce (Nat.le_of_succ_le hr)
  refine .of_binary (.binary hleft hright hl hr) (Nat.lt_of_le_of_lt hle (by decide)) ?_
  intro fuel level s rest k tail hfollows hstops hover hready
  have htext : (Term.binary left operator right).text ++ rest =
      left.text ++ (infixText operator ++ (right.text ++ rest)) := by
    simp [text]
  have hassigns : ∀ k ∈ tightOperators, k.isAssignment = false ∧ k ≠ .asKeyword ∧
      k ≠ .satisfiesKeyword ∧ k ≠ .endOfFile := by decide
  obtain ⟨hassign, has, hsatisfies, hend⟩ := hassigns operator hk
  have hnesting : (Term.binary left operator right).nesting = max left.nesting right.nesting := by
    simp [nesting, hassign]
  have hbinds : binds operator level = true := binds_of_over hk hover
  -- The left operand is read first, and the loop finds the operator behind it.
  refine ((h.binary hcl) fuel level s _ _ _ (follows_infixText operator _) (stops_of_left hk hl)
    (over_of_left hk hl hbinds) (hready.part htext (by omega))).again
    fun id s₁ hreached₁ hnear₁ he₁ => ?_
  obtain ⟨l₂, s₂, hjoin₂, hreached₂, hleft₂, hstands₂, hl₂, htail₂, -⟩ := hnear₁.run_joinGreater
  obtain ⟨s₃, hrun₃, hreached₃, hleft₃, hbefore₃⟩ :=
    run_advance_to hstands₂ (hl₂ ▸ hend) hright hfollows.breaksName (.inr htail₂)
  have hready₃ : Ready fuel 4 0 s₃ right rest := by
    have hleft := hreached₁.left_le
    have hfuel := hready.fuel
    have hroom := hready.room
    exact ⟨hbefore₃, by omega, by
      rw [hreached₃.depth, hreached₂.depth, hreached₁.depth]
      omega⟩
  obtain ⟨id', s₄, hrun₄, hreached₄, ⟨l₄, hstands₄, hjoins₄⟩, he₄⟩ :=
    (h'.binary hcr).rule hfollows (stops_of_right hk hstops hr) (over_of_right hk hr)
      (.inr (not_binds_of_stops hk hstops)) hready₃
  obtain ⟨i, s₅, hrun₅, hreached₅, hleft₅, hstands₅, hnode⟩ :=
    run_make hstands₄ (.binary id operator id') s.scanner.cursor.start
  have hreached := ((hreached₂.trans hreached₃).trans hreached₄).trans hreached₅
  have hleft₄ := hreached₄.left_le
  refine ⟨some i, s₅, ?_, hreached, by omega, ⟨l₄, hstands₅, hjoins₄⟩,
    .binary hnode (he₁.grows hreached.grows) (he₄.grows hreached₅.grows)⟩
  have hzero : bindingLevel operator ≠ 0 := by omega
  have hnoIn : s₂.context.noIn = false := by rw [hstands₂.context]
  rw [binaryStep, run_bind hjoin₂, run_bind hstands₂.run_kind, hl₂, if_neg hzero,
    run_bind (run_get s₂), hnoIn, Bool.and_false, if_neg Bool.false_ne_true, hbinds,
    Bool.not_true, if_neg Bool.false_ne_true, if_neg (by simp [has, hsatisfies]), run_bind hrun₃,
    run_bind hrun₄, run_bind hrun₅]
  rfl

theorem legible_assignment (hk : operator.val ∈ Kind.assignments) :
    (Term.binary left operator right).Legible := by
  have hassigns : ∀ k ∈ Kind.assignments, k.isAssignment = true ∧ bindingLevel k = 0 ∧
      k ≠ .power ∧ k ≠ .endOfFile ∧ Level.ofOperator k = Level.assignment ∧
      Env.sideLevels k = (Level.leftHand, Level.assignment) := by decide
  obtain ⟨hassign, hzero, hpower, hend, hlevel, hsides⟩ := hassigns operator hk
  have htight : (Term.binary left operator right).Tight := .binary hleft hright hl hr
  rw [hsides] at hl hr
  have hstops : left.Stops operator :=
    ⟨by rw [hzero]; exact Nat.zero_le _, fun heq => absurd heq hpower⟩
  have hnesting : (Term.binary left operator right).nesting =
      max left.nesting (right.nesting + 1) := by
    simp [nesting, hassign]
  refine .of_assignment (show Level.ofOperator operator < _ by rw [hlevel]; decide) ?_
  intro fuel s rest k tail hfollows hk hready
  have htext : (Term.binary left operator right).text ++ rest =
      left.text ++ (infixText operator ++ (right.text ++ rest)) := by
    simp [text]
  obtain ⟨s₁, hreached₁, hready₁, hrun₁⟩ := run_assignmentBody htight hfollows.breaksName hready
  obtain ⟨id, s₂, hrun₂, hreached₂, hnear₂, he₂⟩ :=
    (h.binary (Nat.le_trans (by decide) hl)).rule (follows_infixText operator _) hstops
      (.inl (Nat.zero_le _)) (.inl hzero) (hready₁.part htext (by omega))
  obtain ⟨l₃, s₃, hjoin₃, hreached₃, hleft₃, hstands₃, hl₃, htail₃, -⟩ := hnear₂.run_joinGreater
  obtain ⟨s₄, hrun₄, hreached₄, hleft₄, hbefore₄⟩ :=
    run_advance_to hstands₃ (hl₃ ▸ hend) hright hfollows.breaksName (.inr htail₃)
  have hready₄ : Ready fuel 5 1 s₄ right rest := by
    have hleft := hreached₂.left_le
    have hfuel := hready₁.fuel
    have hroom := hready₁.room
    exact ⟨hbefore₄, by omega, by
      rw [hreached₄.depth, hreached₃.depth, hreached₂.depth]
      omega⟩
  obtain ⟨id', s₅, hrun₅, hreached₅, ⟨l₅, hstands₅, hjoins₅⟩, he₅⟩ :=
    (h'.assignment hr).rule hfollows hk hready₄
  obtain ⟨i, s₆, hrun₆, hreached₆, -, hstands₆, hnode⟩ :=
    run_make hstands₅ (.binary id operator id') s₁.scanner.cursor.start
  have hreached := ((hreached₃.trans hreached₄).trans hreached₅).trans hreached₆
  refine ⟨some i, s₆, ?_, (hreached₁.trans hreached₂).trans hreached, ⟨l₅, hstands₆, hjoins₅⟩,
    .binary hnode (he₂.grows hreached.grows) (he₅.grows hreached₆.grows)⟩
  rw [hrun₁, run_bind hrun₂, assignmentRest, run_bind hjoin₃, run_bind hstands₃.run_kind, hl₃,
    if_pos hassign, run_bind hrun₄, run_bind hrun₅, hrun₆]

omit hleft hl in
theorem legible_comma (hk : operator.val = .comma) : (Term.binary left operator right).Legible := by
  have hlevel : (Term.binary left operator right).level = Level.comma := by
    rw [level, hk]
    rfl
  have hlow {n : Nat} (hn : 0 < n) : ¬ n ≤ (Term.binary left operator right).level := by
    rw [hlevel]
    exact Nat.not_le.mpr hn
  have hr' : Level.assignment ≤ right.level := by
    rw [hk] at hr
    exact hr
  have hnesting : (Term.binary left operator right).nesting = max left.nesting right.nesting := by
    have hassign : Kind.comma.isAssignment = false := by decide
    simp [nesting, hk, hassign]
  refine ⟨fun hle => absurd hle (hlow (by decide)), fun hle => absurd hle (hlow (by decide)),
    fun hle => absurd hle (hlow (by decide)), fun hle => absurd hle (hlow (by decide)), ?_⟩
  intro fuel s rest k tail hfollows hclose hready
  have htext : (Term.binary left operator right).text ++ rest =
      left.text ++ (infixText operator ++ (right.text ++ rest)) := by
    simp [text]
  have hcomma := follows_infixText operator (right.text ++ rest)
  refine (h.expression fuel s _ _ _ hcomma (hk ▸ by decide) (hready.part htext (by omega))).again
    fun id s₁ hreached₁ hnear₁ he₁ => ?_
  rw [hk] at hnear₁
  obtain ⟨l₁, hstands₁, hl₁, htail₁⟩ := hnear₁.exists_stands (by decide)
  obtain ⟨s₂, hrun₂, hreached₂, hleft₂, hbefore₂⟩ :=
    run_advance_to hstands₁ (by simp [hl₁]) hright hfollows.breaksName (.inr htail₁)
  have hready₂ : Ready fuel 5 1 s₂ right rest := by
    have hleft := hreached₁.left_le
    have hfuel := hready.fuel
    have hroom := hready.room
    exact ⟨hbefore₂, by omega, by
      rw [hreached₂.depth, hreached₁.depth]
      omega⟩
  obtain ⟨id', s₃, hrun₃, hreached₃, ⟨l₃, hstands₃, hjoins₃⟩, he₃⟩ :=
    (h'.assignment hr').rule hfollows (List.mem_cons_of_mem _ hclose) hready₂
  obtain ⟨i', rfl⟩ := he₃.exists_eq_some
  obtain ⟨i, s₄, hrun₄, hreached₄, hleft₄, hstands₄, hnode⟩ :=
    run_make hstands₃ (.binary id .comma (some i')) s.scanner.cursor.start
  have hreached := (hreached₂.trans hreached₃).trans hreached₄
  have hleft₃ := hreached₃.left_le
  refine ⟨some i, s₄, ?_, hreached, by omega, ⟨l₃, hstands₄, hjoins₃⟩,
    .binary (hk ▸ hnode) (he₁.grows hreached.grows) (he₃.grows hreached₄.grows)⟩
  rw [commaStep, run_bind (hstands₁.run_accept hl₁ hrun₂), if_pos rfl, run_bind hrun₃]
  show (do
    return Turn.again (← make (.binary id .comma (some i')) s.scanner.cursor.start)).run s₃ = _
  rw [run_bind hrun₄]
  rfl

theorem legible_binary : (Term.binary left operator right).Legible := by
  rcases List.mem_cons.mp operator.property with hk | hk
  · exact legible_comma hright hr h h' hk
  · rcases List.mem_append.mp hk with hk | hk
    · exact legible_assignment hleft hright hl hr h h' hk
    · exact legible_tight hleft hright hl hr h h' hk

end Binary

/-! ### Choices -/

theorem legible_conditional {condition whenTrue whenFalse : Term} (hcondition : condition.Tight)
    (htrue : whenTrue.Tight) (hfalse : whenFalse.Tight) (hc : Level.coalesce ≤ condition.level)
    (ht : Level.assignment ≤ whenTrue.level) (hf : Level.assignment ≤ whenFalse.level)
    (h : condition.Legible) (h' : whenTrue.Legible) (h'' : whenFalse.Legible) :
    (Term.conditional condition whenTrue whenFalse).Legible := by
  refine .of_assignment (show Level.conditional < Level.coalesce by decide) ?_
  intro fuel s rest k tail hfollows hk hready
  have htight : (Term.conditional condition whenTrue whenFalse).Tight :=
    .conditional hcondition htrue hfalse hc ht hf
  have htext : (Term.conditional condition whenTrue whenFalse).text ++ rest = condition.text ++
      (' ' :: '?' :: ' ' ::
        (whenTrue.text ++ (' ' :: ':' :: ' ' :: (whenFalse.text ++ rest)))) := by
    simp [text]
  have hnesting : (Term.conditional condition whenTrue whenFalse).nesting =
      max condition.nesting (max whenTrue.nesting whenFalse.nesting + 1) := by
    rw [nesting]
  have hstops : condition.Stops .question := ⟨Nat.zero_le _, (by simp)⟩
  have hcolon := follows_colon (whenFalse.text ++ rest)
  obtain ⟨s₁, hreached₁, hready₁, hrun₁⟩ := run_assignmentBody htight hfollows.breaksName hready
  obtain ⟨id, s₂, hrun₂, hreached₂, hnear₂, he₂⟩ :=
    (h.binary hc).rule (follows_question _) hstops (.inl (Nat.zero_le _)) (.inl rfl)
      (hready₁.part htext (by omega))
  obtain ⟨l₃, s₃, hjoin₃, hreached₃, hleft₃, hstands₃, hl₃, htail₃, -⟩ := hnear₂.run_joinGreater
  obtain ⟨s₄, hrun₄, hreached₄, hleft₄, l₄, hopens₄, hstands₄⟩ :=
    run_advance_to hstands₃ (by simp [hl₃]) htrue hcolon.breaksName (.inr htail₃)
  have hleft₂ := hreached₂.left_le
  have hfuel := hready₁.fuel
  have hroom := hready₁.room
  have hdepth₄ : s₄.depth = s₁.depth := ((hreached₂.trans hreached₃).trans hreached₄).depth
  obtain ⟨id', s₅, hrun₅, hreached₅, hnear₅, he₅⟩ :=
    ((h'.assignment ht).rule hcolon (by decide)
      (⟨⟨l₄, hopens₄, hstands₄⟩, by omega, by omega⟩ :
        Ready fuel 5 1 s₄ whenTrue _)).allowingIn hstands₄
  obtain ⟨l₅, hstands₅, hl₅, htail₅⟩ := hnear₅.exists_stands (by decide)
  obtain ⟨s₆, hrun₆, hreached₆, hleft₆, hbefore₆⟩ :=
    run_advance_to hstands₅ (by simp [hl₅]) hfalse hfollows.breaksName (.inr htail₅)
  have hleft₅ := hreached₅.left_le
  have hdepth₆ : s₆.depth = s₄.depth := (hreached₅.trans hreached₆).depth
  obtain ⟨id'', s₇, hrun₇, hreached₇, ⟨l₇, hstands₇, hjoins₇⟩, he₇⟩ :=
    (h''.assignment hf).rule hfollows hk
      (⟨hbefore₆, by omega, by omega⟩ : Ready fuel 5 1 s₆ whenFalse rest)
  obtain ⟨i, s₈, hrun₈, hreached₈, -, hstands₈, hnode⟩ :=
    run_make hstands₇ (.conditional id id' id'') s₁.scanner.cursor.start
  have hend := (hreached₆.trans hreached₇).trans hreached₈
  have hreached := ((hreached₃.trans hreached₄).trans hreached₅).trans hend
  refine ⟨some i, s₈, ?_, (hreached₁.trans hreached₂).trans hreached, ⟨l₇, hstands₈, hjoins₇⟩,
    .conditional hnode (he₂.grows hreached.grows) (he₅.grows hend.grows)
      (he₇.grows hreached₈.grows)⟩
  have hassign : Kind.question.isAssignment = false := by decide
  rw [hrun₁, run_bind hrun₂, assignmentRest, run_bind hjoin₃, run_bind hstands₃.run_kind, hl₃,
    hassign, if_neg Bool.false_ne_true, if_pos rfl, run_bind hrun₄, assignmentAllowingIn,
    run_bind hrun₅, run_bind (hstands₅.run_expect hl₅ hrun₆), run_bind hrun₇, hrun₈]

/-! ### All terms -/

/-- A term is read from its text if every operand binds as tight as its place asks for. -/
theorem Tight.legible (h : e.Tight) : e.Legible := by
  induction h with
  | name x => exact legible_name x
  | binary hleft hright hl hr ihl ihr => exact legible_binary hleft hright hl hr ihl ihr
  | conditional hcondition htrue hfalse hc ht hf ihc iht ihf =>
    exact legible_conditional hcondition htrue hfalse hc ht hf ihc iht ihf
  | prefixed he hl ih => exact legible_prefixed he hl ih
  | suffixed he hl ih => exact legible_suffixed he hl ih
  | word he hl ih => exact legible_word he hl ih
  | call he hl ha hlevels ih iha =>
    exact legible_call he hl ih fun a hmem => ⟨ha a hmem, hlevels a hmem, iha a hmem⟩
  | property he hl ih => exact legible_property he hl ih
  | element he hl hindex ih ihi => exact legible_element he hl ih hindex ihi
  | parenthesized he ih => exact legible_parenthesized he ih

end Unchain.Term
