import Unchain.Proofs.Grammar.Progress

/-!
# Types are read over

Every step of the grammar of types answers. What decides it is where a token is
passed: a function type starts with a token of its own (`functionTypeBody_passes`),
and a loop goes on only after it has accepted something.
-/

namespace Unchain.Grammar

open Syntax (NodeId)
open Token (Kind)

variable {rules : Rules} {c : Nat} {P : Spot → Prop}

/-! ### Brackets and templates -/

theorem skipTemplate_passes (h : ∀ p, P p → p.kind = .templateHead) :
    Passes rules c P (skipTemplate rules) := by
  refine .passing (advance_passes fun p hp => by simp [h p hp]) fun _ =>
    .bind (repeating_reads fun depth => ?_) fun _ => .pure id
  refine .look kind_looks fun k => ?_
  split
  · exact .pure id
  · exact .passing (rules_templateRest fun p hp => hp.2) fun _ => .pure id
  · exact .passing (advance_passes fun p hp => by simp [hp.2]) fun _ => .pure id
  · refine .ite (fun _ => ?_) fun _ => ?_
    · refine .rescan Token.Scanner.rescans_rescanTemplate (fun p hp => by simp [hp.2]) ?_
      exact .look (at?_looks _) fun last => .passing (advance_passes fun p hp => hp.1)
        fun _ => .pure id
    · exact .passing (advance_passes fun p hp => by simp [hp.2]) fun _ => .pure id
  · next hend _ _ _ => exact .passing (advance_passes fun p hp => hp.2 ▸ hend) fun _ => .pure id

section Balanced

variable {opening closing : Kind}

theorem skipBalanced_goes (hopening : opening ≠ .endOfFile) (hclosing : closing ≠ .endOfFile) :
    Goes rules c P (skipBalanced rules opening closing) fun _ => ∀ p, P p → p.kind = opening := by
  refine (expect_tries hopening).ite ?_ (.pureOn fun p hp h => hp.2 (h p hp.1))
  refine .bind (repeating_reads fun depth => ?_) fun _ => .pure id
  refine .look kind_looks fun k => .ite (fun _ => ?_) fun hend => ?_
  · exact .bind (expect_tries hclosing).reads fun _ => .pure id
  have hadvance : Passes rules 8 (fun p => Anywhere p ∧ p.kind = k) advance :=
    advance_passes fun p hp => hp.2 ▸ hend
  refine .ite (fun htemplate => ?_) fun _ =>
    .ite (fun _ => ?_) fun _ => .ite (fun _ => ?_) fun _ => ?_
  · exact .passing (rules_templateRest fun p hp => hp.2.trans htemplate) fun _ => .pure id
  · exact .passing hadvance fun _ => .pure id
  · exact .passing hadvance fun _ => .pure id
  · exact .passing hadvance fun _ => .pure id

theorem skipBalanced_passes (h : ∀ p, P p → p.kind = opening)
    (hopening : opening ≠ .endOfFile) (hclosing : closing ≠ .endOfFile) :
    Passes rules c P (skipBalanced rules opening closing) :=
  (skipBalanced_goes hopening hclosing).mono (Nat.le_refl c) (fun _ => id) fun _ _ => h

theorem skipBalanced_reads (hopening : opening ≠ .endOfFile) (hclosing : closing ≠ .endOfFile) :
    Reads rules c P (skipBalanced rules opening closing) :=
  (skipBalanced_goes hopening hclosing).reads

end Balanced

theorem skipParenthesized_passes (h : ∀ p, P p → p.kind = .openParen) :
    Passes rules c P (skipParenthesized rules) :=
  skipBalanced_passes h (by decide) (by decide)

theorem skipParenthesized_reads : Reads rules c P (skipParenthesized rules) :=
  skipBalanced_reads (by decide) (by decide)

/-! ### Calls of the rules for types -/

theorem skipType_reads : Reads rules (c + 3) P (skipType rules) :=
  .bind rules_type fun _ => .pure id

theorem skipUnion_reads : Reads rules (c + 2) P (skipUnion rules) :=
  .bind rules_union fun _ => .pure id

theorem skipTypeArguments_reads :
    Reads rules (c + 1) P (skipTypeArguments rules) :=
  .bind rules_typeArguments fun _ => .pure id

theorem skipTypeArguments_passes (h : ∀ p, P p → p.kind = .lessThan) :
    Passes rules (c + 1) P (skipTypeArguments rules) :=
  .passing (rules_typeArguments_passes h) fun _ => .pure id

/-! ### Types of functions -/

theorem nextIs_stays (k : Kind) : Stays rules c P (nextIs k) :=
  lookAhead_stays (.bind advance_reads fun _ => (at?_looks k).reads)

theorem nextOnLine_stays (p : Kind → Bool) : Stays rules c P (nextOnLine p) :=
  lookAhead_stays <| .bind advance_reads fun _ => .bind lineBreakBefore_stays.reads fun _ =>
    .bind kind_looks.reads fun _ => .pure id

/-- The tokens that a type of a function starts with. -/
def startsFunctionType (k : Kind) : Prop :=
  k = .lessThan ∨ k = .newKeyword ∨ k = .abstractKeyword ∨ k = .openParen

theorem atFunctionType?_looks :
    Looks rules c P (atFunctionType? rules) fun p b => b = true → startsFunctionType p.kind := by
  refine .look kind_looks fun k => ?_
  split
  · exact .pure fun p hp _ => .inl hp.2
  · exact .pure fun p hp _ => .inr (.inl hp.2)
  · exact (nextIs_stays _).mono (Nat.le_refl c) (fun _ => id)
      fun p _ hp _ _ => .inr (.inr (.inl hp.2))
  · refine (lookAhead_stays ?_).mono (Nat.le_refl c) (fun _ => id)
      fun p _ hp _ _ => .inr (.inr (.inr hp.2))
    exact .bind skipParenthesized_reads fun _ => (at?_looks _).reads
  · exact .pure fun p _ h => nomatch h

theorem functionTypeRest_reads : Reads rules 8 P (functionTypeRest rules) := by
  refine .look (at?_looks _) fun b => .optional (fun _ => skipTypeArguments_reads) ?_
  exact .bind skipParenthesized_reads fun _ => .bind (expect_tries (by decide)).reads fun _ =>
    .bind rules_resultType fun _ => .pure id

theorem functionTypeRest_passes (h : ∀ p, P p → p.kind = .lessThan ∨ p.kind = .openParen) :
    Passes rules (c + 1) P (functionTypeRest rules) := by
  have harrow : Reads rules 8 Anywhere (do
      let _ ← expect .arrow
      let _ ← rules .resultType : Reader Unit) :=
    .bind (expect_tries (by decide)).reads fun _ => .bind rules_resultType fun _ => .pure id
  refine .look (at?_looks _) fun b => .ite (fun hb => ?_) fun hb => ?_
  · exact .passing (skipTypeArguments_passes fun p hp => hp.2.mp hb) fun _ =>
      .bind skipParenthesized_reads fun _ => harrow
  · refine .passing (skipParenthesized_passes fun p hp => ?_) fun _ => harrow
    exact (h p hp.1).resolve_left fun hk => hb (hp.2.mpr hk)

theorem functionTypeBody_passes (h : ∀ p, P p → startsFunctionType p.kind) :
    Passes rules (c + 1) P (functionTypeBody rules) := by
  refine (accept_tries (by decide)).bind ?_ ((accept_tries (by decide)).bind ?_ ?_)
  · exact .bind (accept_tries (by decide)).reads fun _ => functionTypeRest_reads
  · exact functionTypeRest_reads
  · refine functionTypeRest_passes fun p hp => ?_
    have := h p hp.1.1
    simp_all [startsFunctionType]

/-! ### Types -/

theorem typeBody_reads : Reads rules 2 P (typeBody rules) := by
  refine .look atFunctionType?_looks fun b => .ite (fun hb => ?_) fun _ => ?_
  · exact .passing (functionTypeBody_passes fun p hp => hp.2 hb) fun _ => .pure id
  refine .bind skipUnion_reads fun _ => .look (at?_looks _) fun extends' =>
    .look lineBreakBefore_stays fun _ => .ite (fun h => ?_) fun _ => .pure id
  refine .passing (advance_passes fun p hp => ?_) fun _ => .bind skipUnion_reads fun _ =>
    (expect_tries (by decide)).ite ?_ (.pure id)
  · have hk := hp.1.2.mp (by simp_all)
    simp [hk]
  · exact .bind skipType_reads fun _ => .bind (expect_tries (by decide)).reads fun _ =>
      .bind skipType_reads fun _ => .pure id

theorem resultTypeBody_reads : Reads rules 3 P (resultTypeBody rules) := by
  refine .look (atWord?_looks _) fun word => .eitherLook (I := fun p b => b = true →
    p.kind = .identifier) (fun h => ?_) (fun _ => .pure fun _ _ => nofun) fun asserts => ?_
  · exact (nextOnLine_stays _).mono (Nat.le_refl 3) (fun _ => id) fun p _ hp _ _ => hp.2 h
  refine .ite (fun h => ?_) fun _ => .bind skipType_reads fun _ => .pure id
  refine .passing (advance_passes fun p hp => by simp [hp.2 h]) fun _ => .bind advance_reads
    fun _ => .look (atWord?_looks _) fun is => .ite (fun _ => ?_) fun _ => .pure id
  exact .bind advance_reads fun _ => .bind skipType_reads fun _ => .pure id

theorem optionalTypeArguments_reads :
    Reads rules (c + 1) P (optionalTypeArguments rules) :=
  .look (at?_looks _) fun _ => .look lineBreakBefore_stays fun _ =>
    .ite (fun _ => skipTypeArguments_reads) fun _ => .pure id

/-- A loop over names with points before them. -/
theorem entityName_reads : Reads rules (c + 1) P (entityName rules) := by
  refine .bind advance_reads fun _ => .bind (repeating_reads fun _ => ?_)
    fun _ => optionalTypeArguments_reads
  refine .look (at?_looks _) fun dot => .ite (fun h => ?_) fun _ => .pure id
  exact .passing (advance_passes fun p hp => by simp [hp.2.mp h]) fun _ =>
    .bind advance_reads fun _ => .pure id

theorem primaryType_reads : Reads rules (c + 1) P (primaryType rules) := by
  refine .look kind_looks fun k => ?_
  split
  · exact .passing (advance_passes fun p hp => by simp [hp.2]) fun _ =>
      .bind skipType_reads fun _ => .bind (expect_tries (by decide)).reads fun _ => .pure id
  · exact skipBalanced_reads (by decide) (by decide)
  · exact skipBalanced_reads (by decide) (by decide)
  · exact .bind advance_reads fun _ => entityName_reads
  · refine .bind advance_reads fun _ => .bind skipParenthesized_reads fun _ =>
      .bind (repeating_reads fun _ => ?_) fun _ => optionalTypeArguments_reads
    exact (accept_tries (by decide)).ite (.bind advance_reads fun _ => .pure id) (.pure id)
  · exact .bind advance_reads fun _ => advance_reads
  · exact .bind (rules_templateRest fun p hp => hp.2) fun _ => .pure id
  all_goals try exact advance_reads
  · exact .ite (fun _ => entityName_reads) fun _ => (errorHere_stays _).reads

theorem postfixType_reads : Reads rules (c + 1) P (postfixType rules) := by
  refine .bind primaryType_reads fun _ => repeating_reads fun _ => ?_
  refine .look (at?_looks _) fun bracket => .look lineBreakBefore_stays fun newLine =>
    .ite (fun h => ?_) fun _ => ?_
  · refine .passing (advance_passes fun p hp => ?_) fun _ => .look (at?_looks _) fun closed => ?_
    · have hk := hp.1.2.mp (by simp_all)
      simp [hk]
    · exact .optional (fun _ => skipType_reads) <| .bind (expect_tries (by decide)).reads fun _ =>
        .pure id
  · refine .look (atWord?_looks _) fun word => .look lineBreakBefore_stays fun newLine =>
      .ite (fun h => ?_) fun _ => .pure id
    refine .passing (advance_passes fun p hp => ?_) fun _ => .bind skipType_reads fun _ => .pure id
    have hk := hp.1.2 (by simp_all)
    simp [hk]

theorem inferredConstraint_reads : Reads rules 8 P (inferredConstraint rules) := by
  refine .look (at?_looks _) fun b => .ite (fun _ => ?_) fun _ => .pure id
  refine .look (lookAhead_stays ?_) fun constrains => .ite (fun _ => ?_) fun _ => .pure id
  · exact .bind advance_reads fun _ => .bind skipUnion_reads fun _ =>
      .bind (at?_looks _).reads fun _ => .pure id
  · exact .bind advance_reads fun _ => skipUnion_reads

theorem typeOperator_reads : Reads rules (c + 1) P (typeOperator rules) := by
  refine .bind (repeating_reads fun _ => ?_) fun inferred =>
    .ite (fun _ => postfixType_reads) fun _ => .pure id
  refine .look (atAny?_looks _) fun keyof => .ite (fun h => ?_) fun _ => ?_
  · refine .passing (advance_passes fun p hp => ?_) fun _ => .pure id
    rintro hend
    simp [hend, h] at hp
  refine .look (atWord?_looks _) fun unique => .ite (fun h => ?_) fun _ => ?_
  · exact .passing (advance_passes fun p hp => by simp [hp.2 h]) fun _ => .pure id
  refine .look (atWord?_looks _) fun infer => .ite (fun h => ?_) fun _ => .pure id
  exact .passing (advance_passes fun p hp => by simp [hp.2 h]) fun _ => .bind advance_reads
    fun _ => .bind inferredConstraint_reads fun _ => .pure id

theorem unionBody_reads : Reads rules 1 P (unionBody rules) := by
  refine .bind (accept_tries (by decide)).reads fun bar =>
    .optional (fun _ => (accept_tries (by decide)).reads) <| .bind (repeating_reads fun _ => ?_)
    fun _ => .pure id
  refine .bind typeOperator_reads fun _ => (accept_tries (by decide)).ite (.pure id) ?_
  exact (accept_tries (by decide)).ite (.pure id) (.pure id)

theorem typeParameterModifiers_reads : Reads rules c P typeParameterModifiers := by
  refine repeating_reads fun _ => .look (atAny?_looks _) fun word => ?_
  extract_lets modified
  have hmodified (b : Bool) :
      Turns rules c (fun p => b = true → p.kind ≠ .endOfFile) (modified b) :=
    .ite (fun h => .passing (advance_passes fun p hp => hp h) fun _ => .pure id) fun _ => .pure id
  refine .ite (fun h => ?_) fun _ => ?_
  · refine (hmodified true).on fun p hp _ hend => ?_
    simp [hend, h] at hp
  refine .look (atWord?_looks _) fun out => .ite (fun h => ?_) fun _ => ?_
  · exact .look (nextOnLine_stays _) fun b => (hmodified b).on fun p hp _ => by simp [hp.1.2 h]
  · exact (hmodified false).on fun _ _ => nofun

theorem typeArgumentsBody_goes : Goes rules 0 P (typeArgumentsBody rules) fun _ =>
    ∀ p, P p → p.kind = .lessThan := by
  refine (expect_tries (by decide)).ite ?_ (.pureOn fun p hp h => hp.2 (h p hp.1))
  refine .bind (repeating_reads fun _ => ?_) fun _ =>
    .bind (expect_tries (by decide)).reads fun _ => .pure id
  refine .look (atAny?_looks _) fun ended => .ite (fun _ => .pure id) fun _ =>
    .look tokenPos_stays fun before => .bind typeParameterModifiers_reads fun _ =>
    .bind skipType_reads fun _ =>
    (accept_tries (by decide)).optional (by decide) skipType_reads <|
    (accept_tries (by decide)).optional (by decide) skipType_reads <|
    (accept_tries (by decide)).ite_not ?_ (.pure id)
  exact .look tokenPos_stays fun now => .ite (fun _ => .pure id) fun _ => .pure id

/-! ### Nodes of types -/

theorem typeNodeFrom_stays (pos : Nat) : Stays rules c P (typeNodeFrom pos) :=
  .look lastStop_stays fun _ => .look (sourceText_stays _ _) fun _ => makeBetween_stays _ _ _ _

theorem typeNode_reads : Reads rules (c + 3) P (typeNode rules) :=
  .look tokenPos_stays fun _ => .bind skipType_reads fun _ => (typeNodeFrom_stays _).reads

theorem declaredType_reads : Reads rules c P (declaredType rules) :=
  (accept_tries (by decide)).ite typeNode_reads (.pure id)

theorem resultType_reads : Reads rules c P (resultType rules) :=
  (accept_tries (by decide)).ite (.look tokenPos_stays fun _ => .bind rules_resultType fun _ =>
    (typeNodeFrom_stays _).reads) (.pure id)

theorem typeArguments_passes (h : ∀ p, P p → p.kind = .lessThan) :
    Passes rules (c + 1) P (typeArguments rules) :=
  .look tokenPos_stays fun _ => .passing (skipTypeArguments_passes fun p hp => h p hp.1) fun _ =>
    (typeNodeFrom_stays _).reads

theorem typeParameters_reads : Reads rules (c + 1) P (typeParameters rules) :=
  .look (at?_looks _) fun _ => .ite (fun h => (typeArguments_passes fun _ hp =>
    hp.2.mp h).reads) fun _ => .pure id

/-- What comes after type parameters, or instead of them. -/
theorem typeParameters_bind {β : Type} {N : β → Prop} {y : Option NodeId → Reader β}
    (hsome : ∀ id, Reads rules 8 Anywhere (y id))
    (hnone : Goes rules (c + 1) (fun p => P p ∧ p.kind ≠ .lessThan) (y none) N) :
    Goes rules (c + 1) P (typeParameters rules >>= y) N := by
  unfold typeParameters
  rw [bind_assoc]
  refine .look (at?_looks _) fun b => ?_
  by_cases hb : b = true
  · rw [if_pos hb]
    exact .passing (typeArguments_passes fun p hp => hp.2.mp hb) hsome
  · rw [if_neg hb]
    exact .pureBind (hnone.on fun p hp => ⟨hp.1, fun hk => hb (hp.2.mpr hk)⟩)

theorem atCallTypeArguments?_looks :
    Looks rules (c + 1) P (atCallTypeArguments? rules) fun p b =>
      b = true → p.kind = .lessThan := by
  refine .look (at?_looks _) fun b => .ite (fun h => ?_) fun _ => .pure fun _ _ => nofun
  refine (lookAhead_stays ?_).mono (Nat.le_refl _) (fun _ => id) fun p _ hp _ _ => hp.2.mp h
  exact .bind errorCount_stays.reads fun _ => .bind skipTypeArguments_reads fun _ =>
    .bind errorCount_stays.reads fun _ => .bind (atAny?_looks _).reads fun _ => .pure id

end Unchain.Grammar
