import Unchain.Proofs.Grammar.Functions

/-!
# Expressions are read to the end

Every step of the grammar of expressions answers. A repetition of accesses and
calls goes on only after a token that starts one (`memberStep_turns`), one of
operators only after an operator (`binaryStep_turns`); an arrow starts with a
token of its own (`arrowFunction_passes`).
-/

namespace Unchain.Grammar

open Syntax (AccessKind Data Flags FunctionKind NodeId NodeList UnaryKind)
open Token (Kind)

variable {rules : Rules} {c : Nat} {P : Spot → Prop}

/-! ### Lists -/

theorem joinGreater_reads : Reads rules c P joinGreater :=
  .look (at?_looks _) fun _ => .ite
    (fun _ => rescan_reads Token.Scanner.rescans_rescanGreater) fun _ => .pure id

theorem spread_passes {k : UnaryKind} (h : ∀ p, P p → p.kind = .ellipsis) :
    Passes rules c P (spread rules k) :=
  .look tokenPos_stays fun _ => .passing (advance_passes fun p hp => by simp [h p hp.1]) fun _ =>
    .bind assignmentAllowingIn_reads fun _ => (make_stays _ _).reads

theorem listElement_reads : Reads rules (c + 5) P (listElement rules) :=
  .look (at?_looks _) fun _ => .ite (fun h => (spread_passes fun _ hp => hp.2.mp h).reads)
    fun _ => assignmentAllowingIn_reads

theorem argumentList_passes (h : ∀ p, P p → p.kind = .openParen) :
    Passes rules c P (argumentList rules) := by
  refine .look tokenPos_stays fun _ => .passing ((expect_tries (by decide)).passes fun p hp =>
    h p hp.1) fun _ => .bind (repeating_reads fun ⟨nodes, comma⟩ => ?_) fun ⟨nodes, comma⟩ =>
    .bind (expect_tries (by decide)).reads fun _ => .bind lastStop_stays.reads fun _ => .pure id
  refine .look (atAny?_looks _) fun _ => .ite (fun _ => .pure id) fun _ =>
    .bind listElement_reads fun argument => ?_
  cases argument with
  | none => exact .pure id
  | some argument => exact (accept_tries (by decide)).bind (.pure id) (.pure id)

theorem arrayLiteral_reads (h : ∀ p, P p → p.kind = .openBracket) :
    Reads rules c P (arrayLiteral rules) := by
  refine .look tokenPos_stays fun _ => .passing (advance_passes fun p hp => by simp [h p hp.1])
    fun _ => .look lineBreakBefore_stays fun _ => .look tokenPos_stays fun _ =>
    .bind (repeating_reads fun ⟨nodes, comma⟩ => ?_) fun ⟨nodes, comma⟩ => .look tokenPos_stays
    fun _ => .bind (expect_tries (by decide)).reads fun _ => (make_stays _ _).reads
  refine .look (atAny?_looks _) fun _ => .ite (fun _ => .pure id) fun _ =>
    .look (at?_looks _) fun comma => .ite (fun h => ?_) fun _ => .bind listElement_reads
    fun element => ?_
  · exact .passing (hole_passes fun p hp => hp.2.mp h) fun _ => .pure id
  · cases element with
    | none => exact .pure id
    | some element => exact (accept_tries (by decide)).bind (.pure id) (.pure id)

theorem objectMemberRest_reads {pos : Nat} {name : Option NodeId} :
    Reads rules c P (objectMemberRest rules pos name) :=
  (accept_tries (by decide)).ite
    (.bind assignmentAllowingIn_reads fun _ => (make_stays _ _).reads)
    (.bind optionalValue_reads fun _ => (make_stays _ _).reads)

theorem objectMember_reads : Reads rules (c + 1) P (objectMember rules) := by
  refine .look tokenPos_stays fun _ => .look (at?_looks _) fun _ =>
    .ite (fun h => (spread_passes fun _ hp => hp.2.mp h).reads) fun _ =>
    .bind acceptMethodAsync_reads fun _ => .bind (accept_tries (by decide)).reads fun _ => ?_
  extract_lets member
  have hmember (accessor) : Reads rules (c + 1) Anywhere (member accessor) := by
    cases accessor with
    | some k =>
      exact .bind advance_reads fun _ => .bind propertyName_reads fun _ => methodRest_reads
    | none =>
      exact .bind propertyName_reads fun _ => .look (atAny?_looks _) fun _ =>
        .ite (fun _ => methodRest_reads) fun _ => objectMemberRest_reads
  clear_value member
  exact .ite (fun _ => .pureBind ((hmember _).on fun _ _ => trivial)) fun _ =>
    .bind accessorHere?_stays.reads hmember

theorem objectElement_reads : Reads rules (c + 1) P (objectElement rules) :=
  .bind objectMember_reads fun _ => .bind (accept_tries (by decide)).reads fun _ => .pure id

theorem objectLiteral_reads (h : ∀ p, P p → p.kind = .openBrace) :
    Reads rules c P (objectLiteral rules) := by
  refine .look tokenPos_stays fun _ => .passing (advance_passes fun p hp => by simp [h p hp.1])
    fun _ => .look lineBreakBefore_stays fun _ => .look tokenPos_stays fun _ =>
    .bind (repeating_reads fun ⟨nodes, comma⟩ => ?_) fun ⟨nodes, comma⟩ => .look tokenPos_stays
    fun _ => .bind (expect_tries (by decide)).reads fun _ => (make_stays _ _).reads
  refine .look (atAny?_looks _) fun ended => .ite (fun _ => .pure id) fun hended =>
    .since (fun p hp hend => ?_) (fun _ => objectElement_reads) (fun before a now hne => ?_)
    fun before a => ?_
  · simp [hend, hended] at hp
  · exact .ite (fun heq => (hne heq).elim) fun _ => .pure id
  · exact .ite (fun _ => .passing (advance_passes fun _ => id) fun _ => .pure id)
      fun hne => (hne rfl).elim

/-! ### Templates -/

theorem templateSpan_turns : Goes rules 8 P (templateSpan rules) fun span => span.isSome := by
  refine .look tokenPos_stays fun _ => .bind expressionAllowingIn_reads fun _ =>
    .look (at?_looks _) fun closed => .ite (fun h => ?_) fun _ =>
    .bind (expect_tries (by decide)).reads fun _ => .pure (by simp)
  refine .rescan Token.Scanner.rescans_rescanTemplate (fun p hp => by simp [hp.2.mp h]) ?_
  exact .look (at?_looks _) fun last => .passing (literal_passes fun p hp => hp.1) fun _ =>
    .bind (make_stays _ _).reads fun _ => .pure id

theorem templateLiteral_passes (h : ∀ p, P p → p.kind ≠ .endOfFile) :
    Passes rules c P (templateLiteral rules) := by
  refine .look (at?_looks _) fun _ => .ite (fun _ => literal_passes fun p hp => h p hp.1) fun _ =>
    .look tokenPos_stays fun _ => .passing (literal_passes fun p hp => h p hp.1.1) fun _ =>
    .look tokenPos_stays fun _ => .bind (repeating_reads fun spans => ?_) fun _ =>
    .bind lastStop_stays.reads fun _ => (make_stays _ _).reads
  refine templateSpan_turns.cases (fun span _ => ?_) fun span hspan => ?_
  · cases span <;> exact .pure id
  · cases span with
    | none => exact .pure id
    | some span => exact (hspan rfl).elim

/-! ### Functions and classes -/

theorem functionExpression_goes {pos : Nat} {isAsync : Bool}
    (h : 1 ≤ c ∨ ∀ p, P p → p.kind = .functionKeyword) :
    Goes rules c P (functionExpression rules pos isAsync) fun _ =>
      ∀ p, P p → p.kind = .functionKeyword := by
  refine (expect_tries (by decide)).starting (fun _ => ?_) h (by decide)
  refine .bind (accept_tries (by decide)).reads fun _ => .look atIdentifier?_looks fun _ => ?_
  exact .either (fun _ => inContext_reads identifier_reads) (fun _ => .pure id) fun _ =>
    functionRest_reads

theorem heritage_reads : Reads rules c P (heritage rules) := by
  refine .look (atAny?_looks _) fun _ => .ite (fun _ => ?_) fun _ => .pure id
  refine .look tokenPos_stays fun _ => .bind (repeating_reads fun _ => ?_) fun _ =>
    (makeVerbatim_stays _ _).reads
  refine .look kind_looks fun k => ?_
  split
  · exact .pure id
  · exact .pure id
  · exact .passing (skipParenthesized_passes fun p hp => hp.2) fun _ => .pure id
  · exact .passing (skipBalanced_passes (fun _ hp => hp.2) (by decide) (by decide)) fun _ =>
      .pure id
  · next hend _ _ => exact .passing (advance_passes fun p hp => hp.2 ▸ hend) fun _ => .pure id

theorem decorators_reads : Reads rules c P (decorators rules) := by
  refine repeating_reads fun nodes => .look (at?_looks _) fun atSign => .ite (fun h => ?_)
    fun _ => .pure id
  refine .passing (.look tokenPos_stays fun _ => .passing (advance_passes fun p hp => ?_) fun _ =>
    .bind rules_leftHand fun _ => (makeVerbatim_stays _ _).reads) fun _ => .pure id
  simp [hp.1.2.mp h]

theorem atMemberModifier?_looks :
    Looks rules c P atMemberModifier? fun p b => b = true → p.kind ≠ .endOfFile := by
  refine .look (atAny?_looks _) fun word => ?_
  extract_lets modifies
  have hmodifies (b) : Looks rules c (fun p => b = true → p.kind ≠ .endOfFile) (modifies b)
      fun p b => b = true → p.kind ≠ .endOfFile :=
    .ite (fun h => (nextOnLine_stays _).mono (Nat.le_refl c) (fun _ => id) fun _ _ hp _ _ => hp h)
      fun _ => .pure fun _ _ => nofun
  clear_value modifies
  refine .ite (fun h => ?_) fun _ => .look (atWord?_looks _) fun accessor => ?_
  · rw [pure_bind]
    refine (hmodifies true).mono (Nat.le_refl c) (fun _ hp _ hend => ?_) fun _ _ _ => id
    simp [hend, h] at hp
  · exact (hmodifies accessor).mono (Nat.le_refl c) (fun _ hp h => by simp [hp.2 h]) fun _ _ _ => id

theorem memberModifiers_reads {nodes : Array NodeId} : Reads rules c P (memberModifiers nodes) :=
  repeating_reads fun _ => .look atMemberModifier?_looks fun _ => .ite
    (fun h => .passing (tokenNode_passes fun _ hp => hp.2 h) fun _ => .pure id) fun _ => .pure id

theorem atIndexSignature?_stays : Stays rules c P atIndexSignature? := by
  refine .look (at?_looks _) fun _ => .ite (fun _ => lookAhead_stays ?_) fun _ =>
    .pure fun _ _ => trivial
  exact .bind advance_reads fun _ => .look kind_looks fun _ => .ite
    (fun _ => .bind advance_reads fun _ => (at?_looks _).reads) fun _ => .pure id

theorem propertyRest_reads {pos : Nat} {modifiers : Option NodeList} {name : Option NodeId} :
    Reads rules c P (propertyRest rules pos modifiers name) := by
  refine .bind (accept_tries (by decide)).reads fun _ => .bind (accept_tries (by decide)).reads
    fun _ => .bind declaredType_reads fun _ => ?_
  refine (accept_tries (by decide)).ite ?_ ?_
  · exact .bind (inContext_reads rules_assignment) fun _ => .bind endStatement_reads fun _ =>
      (make_stays _ _).reads
  · exact .pureBind <| .bind endStatement_reads fun _ => (make_stays _ _).reads

theorem atOptionalMethod?_stays : Stays rules c P atOptionalMethod? :=
  .look (at?_looks _) fun _ => .ite (fun _ => lookAhead_stays <| .bind advance_reads fun _ =>
    (atAny?_looks _).reads) fun _ => .pure fun _ _ => trivial

theorem namedMember_reads {pos : Nat} {modifiers : Option NodeList} :
    Reads rules (c + 1) P (namedMember rules pos modifiers) := by
  refine .bind acceptMethodAsync_reads fun isAsync => .bind (accept_tries (by decide)).reads
    fun isGenerator => ?_
  extract_lets plain named member
  have hnamed (isConstructor) : Reads rules (c + 1) Anywhere (named isConstructor) :=
    .ite (fun _ => .bind memberName_reads fun _ => functionRest_reads) fun _ =>
      .bind propertyName_reads fun _ => .look atOptionalMethod?_stays fun _ =>
      .look (atAny?_looks _) fun _ => .ite (fun _ => methodRest_reads) fun _ => propertyRest_reads
  clear_value named
  have hmember (accessor) : Reads rules (c + 1) Anywhere (member accessor) := by
    cases accessor with
    | some k =>
      exact .bind advance_reads fun _ => .bind propertyName_reads fun _ => methodRest_reads
    | none =>
      exact .bind (at?_looks _).reads fun _ => .either (fun _ => (nextIs_stays _).reads)
        (fun _ => .pure id) hnamed
  clear_value member
  exact .ite (fun _ => .bind accessorHere?_stays.reads hmember) fun _ =>
    .pureBind ((hmember _).on fun _ _ => trivial)

theorem classMember_reads : Reads rules (c + 2) P (classMember rules) := by
  refine .look tokenPos_stays fun _ => .look (at?_looks _) fun _ => .ite
    (fun _ => .bind advance_reads fun _ => (make_stays _ _).reads) fun _ =>
    .bind decorators_reads fun _ => .look (at?_looks _) fun _ => .eitherLook
    (fun _ => nextIs_stays _) (fun _ => .pure fun _ _ => trivial) fun _ => .ite (fun _ => ?_)
    fun _ => .bind memberModifiers_reads fun _ => .look atIndexSignature?_stays fun _ => .ite
    (fun _ => ?_) fun _ => namedMember_reads
  · exact .bind advance_reads fun _ => .bind (skipBalanced_reads (by decide) (by decide)) fun _ =>
      (makeVerbatim_stays _ _).reads
  · exact .bind (skipBalanced_reads (by decide) (by decide)) fun _ =>
      .bind declaredType_reads fun _ => .bind endStatement_reads fun _ =>
      (makeVerbatim_stays _ _).reads

theorem classMembers_reads : Reads rules (c + 2) P (classMembers rules) := by
  refine repeating_reads fun nodes => .look (atAny?_looks _) fun ended => .ite (fun _ => .pure id)
    fun hended => .since (fun p hp hend => ?_) (fun _ => classMember_reads)
    (fun before a now hne => ?_) fun before a => ?_
  · simp [hend, hended] at hp
  · exact .ite (fun heq => (hne heq).elim) fun _ => .pure id
  · refine .ite (fun _ => ?_) fun hne => (hne rfl).elim
    exact .look (errorHere_stays _) fun _ => .passing (advance_passes fun p hp => hp.1) fun _ =>
      .pure id

theorem classRest_goes {k : Syntax.ClassKind} {pos : Nat} {modifiers : Option NodeList}
    (h : 2 ≤ c ∨ ∀ p, P p → p.kind = .classKeyword) :
    Goes rules c P (classRest rules k pos modifiers) fun _ =>
      ∀ p, P p → p.kind = .classKeyword := by
  refine (expect_tries (by decide)).starting (fun _ => ?_) h (by decide)
  refine .look atIdentifier?_looks fun _ => .look (at?_looks _) fun _ =>
    .either (fun _ => identifier_reads) (fun _ => .pure id) fun _ => ?_
  exact .bind typeParameters_reads fun _ => .bind heritage_reads fun _ => .look tokenPos_stays
    fun _ => .bind (expect_tries (by decide)).reads fun _ => .bind classMembers_reads fun _ =>
    .look tokenStop_stays fun _ => .bind (expect_tries (by decide)).reads fun _ =>
    (make_stays _ _).reads

/-! ### Primary expressions -/

theorem parenthesizedExpression_reads (h : ∀ p, P p → p.kind = .openParen) :
    Reads rules c P (parenthesizedExpression rules) :=
  .look tokenPos_stays fun _ => .passing (advance_passes fun p hp => by simp [h p hp.1]) fun _ =>
    .bind expressionAllowingIn_reads fun _ => .bind (expect_tries (by decide)).reads fun _ =>
    (make_stays _ _).reads

theorem nameOrNothing_reads : Reads rules c P nameOrNothing :=
  .look atIdentifier?_looks fun _ => .ite (fun _ => nameNode_reads) fun _ =>
    .bind (errorHere_stays _).reads fun _ => .pure id

theorem primaryExpression_reads :
    Reads rules (c + 1) P (primaryExpression rules) := by
  refine .look tokenPos_stays fun pos => .look kind_looks fun k => ?_
  split
  all_goals try exact tokenNode_reads
  all_goals try exact literal_reads
  · exact (templateLiteral_passes fun p hp => by simp [hp.2]).reads
  · exact (templateLiteral_passes fun p hp => by simp [hp.2]).reads
  · exact .bind (rescan_reads Token.Scanner.rescans_rescanSlash) fun _ => literal_reads
  · exact .bind (rescan_reads Token.Scanner.rescans_rescanSlash) fun _ => literal_reads
  · exact parenthesizedExpression_reads fun p hp => hp.2
  · exact arrayLiteral_reads fun p hp => hp.2
  · exact objectLiteral_reads fun p hp => hp.2
  · exact (functionExpression_goes (.inl (Nat.le_add_left 1 c))).reads
  · refine .look (nextOnLine_stays _) fun _ => .ite (fun _ => ?_) fun _ => nameOrNothing_reads
    exact .bind advance_reads fun _ => (functionExpression_goes (.inl (Nat.le_add_left 1 c))).reads
  · exact (classRest_goes (.inr fun p hp => hp.2)).reads
  · exact .bind advance_reads fun _ => (make_stays _ _).reads
  · exact memberName_reads
  · exact nameOrNothing_reads

/-! ### Accesses and calls -/

theorem access_stays {k : AccessKind} {pos : Nat} {e member : Option NodeId} {questionDot : Bool} :
    Stays rules c P (access k pos e member questionDot) := makeFlagged_stays _ _ _

section Member

variable {pos : Nat} {e : Option NodeId} {allowCalls : Bool}

theorem call_passes {types : Option NodeId} {flags : Flags} (h : ∀ p, P p → p.kind = .openParen) :
    Passes rules c P (call rules pos e types flags) :=
  .passing (argumentList_passes h) fun _ => (makeFlagged_stays _ _ _).reads

theorem elementAccess_reads {questionDot : Bool} :
    Reads rules (c + 6) P (elementAccess rules pos e questionDot) :=
  .bind expressionAllowingIn_reads fun _ => .bind (expect_tries (by decide)).reads fun _ =>
    access_stays.reads

/-- One access or call passes the token that it starts with. -/
theorem memberStep_turns :
    Turns rules (c + 1) P (memberStep rules pos allowCalls e) := by
  refine .look kind_looks fun k => ?_
  split
  · exact .passing (advance_passes fun p hp => by simp [hp.2]) fun _ => .bind memberName_reads
      fun _ => .bind access_stays.reads fun _ => .pure id
  · refine .passing (advance_passes fun p hp => by simp [hp.2]) fun _ => .look (at?_looks _)
      fun paren => .ite (fun h => ?_) fun _ => (accept_tries (by decide)).ite ?_ ?_
    · refine .bind (call_passes fun p hp => hp.2.mp ?_) fun _ => .pure id
      exact (Bool.and_eq_true_iff.mp h).2
    · exact .bind elementAccess_reads fun _ => .pure id
    · exact .bind memberName_reads fun _ => .bind access_stays.reads fun _ => .pure id
  · exact .passing (advance_passes fun p hp => by simp [hp.2]) fun _ =>
      .bind elementAccess_reads fun _ => .pure id
  · refine .look lineBreakBefore_stays fun _ => .ite (fun _ => .pure id) fun _ => ?_
    exact .passing (advance_passes fun p hp => by simp [hp.1.2]) fun _ =>
      .bind (make_stays _ _).reads fun _ => .pure id
  · exact .passing (templateLiteral_passes fun p hp => by simp [hp.2]) fun _ =>
      .bind (make_stays _ _).reads fun _ => .pure id
  · exact .passing (templateLiteral_passes fun p hp => by simp [hp.2]) fun _ =>
      .bind (make_stays _ _).reads fun _ => .pure id
  · refine .look atCallTypeArguments?_looks fun _ => .ite (fun _ => ?_) fun _ => .pure id
    refine .passing (typeArguments_passes fun p hp => hp.1.2) fun _ => .look (at?_looks _)
      fun _ => .ite (fun h => ?_) fun _ => .pure id
    exact .bind (call_passes fun p hp => hp.2.mp h) fun _ => .pure id
  · refine .ite (fun _ => ?_) fun _ => .pure id
    exact .passing (call_passes fun p hp => hp.2) fun _ => .pure id
  · exact .pure id

theorem memberRest_reads :
    Reads rules (c + 1) P (memberRest rules pos allowCalls e) :=
  repeating_reads fun _ => memberStep_turns

end Member

theorem constructionOrPrimary_reads : Reads rules (c + 1) P (constructionOrPrimary rules) :=
  .look (at?_looks _) fun _ => .ite (fun h => (rules_construction fun _ hp => hp.2.mp h).reads)
    fun _ => primaryExpression_reads

theorem leftHandBody_reads : Reads rules 1 P (leftHandBody rules) :=
  .look tokenPos_stays fun _ => .bind constructionOrPrimary_reads fun _ => memberRest_reads

theorem constructionBody_passes (h : ∀ p, P p → p.kind = .newKeyword) :
    Passes rules c P (constructionBody rules) := by
  refine .look tokenPos_stays fun _ => .passing (advance_passes fun p hp => by simp [h p hp.1])
    fun _ => .look tokenPos_stays fun _ => .look (at?_looks _) fun _ => .ite (fun _ => ?_) fun _ =>
    .bind constructionOrPrimary_reads fun _ => .bind memberRest_reads fun _ =>
    .look atCallTypeArguments?_looks fun _ => ?_
  · exact .bind (makeBetween_stays _ _ _ _).reads fun _ => memberRest_reads
  refine .either (fun h => (typeArguments_passes fun p hp => hp.2 h).reads) (fun _ => .pure id)
    fun _ => .look (at?_looks _) fun _ => .either (fun h => ?_) (fun _ => .pure id) fun _ =>
    (make_stays _ _).reads
  exact .map (argumentList_passes fun p hp => hp.2.mp h).reads fun _ => id

/-! ### Operators -/

theorem wordOperator_passes {k : UnaryKind} (h : ∀ p, P p → p.kind ≠ .endOfFile) :
    Passes rules c P (wordOperator rules k) :=
  .look tokenPos_stays fun _ => .passing (advance_passes fun p hp => h p hp.1) fun _ =>
    .bind rules_unary fun _ => (make_stays _ _).reads

theorem suffixedExpression_reads :
    Reads rules (c + 2) P (suffixedExpression rules) :=
  .look tokenPos_stays fun _ => .bind rules_leftHand fun _ => .look (atAny?_looks _) fun _ =>
    .look lineBreakBefore_stays fun _ => .ite (fun _ => .look kind_looks fun _ =>
      .bind advance_reads fun _ => (make_stays _ _).reads) fun _ => .pure id

theorem typeAssertion_passes (h : ∀ p, P p → p.kind = .lessThan) :
    Passes rules c P (typeAssertion rules) :=
  .look tokenPos_stays fun _ => .passing (advance_passes fun p hp => by simp [h p hp.1]) fun _ =>
    .bind typeNode_reads fun _ => .bind (expect_tries (by decide)).reads fun _ =>
    .bind rules_unary fun _ => (make_stays _ _).reads

theorem unaryBody_reads : Reads rules 2 P (unaryBody rules) := by
  refine .look tokenPos_stays fun _ => .look kind_looks fun k => ?_
  split
  iterate 6
    · exact .look kind_looks fun _ => .passing (advance_passes fun p hp => by simp [hp.1.2])
        fun _ => .bind rules_unary fun _ => (make_stays _ _).reads
  iterate 3
    · exact (wordOperator_passes fun p hp => by simp [hp.2]).reads
  · exact .look get_stays fun _ => .ite
      (fun _ => (wordOperator_passes fun p hp => by simp [hp.1.2]).reads)
      fun _ => suffixedExpression_reads
  · exact (typeAssertion_passes fun p hp => hp.2).reads
  · exact suffixedExpression_reads

theorem ne_endOfFile_of_bindingLevel {k : Kind} (h : bindingLevel k ≠ 0) : k ≠ .endOfFile := by
  rintro rfl
  exact h rfl

/-- An operator and its right side pass the operator. -/
theorem binaryStep_turns {level pos : Nat} {left : Option NodeId} :
    Turns rules c P (binaryStep rules level pos left) := by
  refine .bind joinGreater_reads fun _ => .look kind_looks fun operator =>
    .ite (fun _ => .pure id) fun hlevel => .look get_stays fun _ =>
    .ite (fun _ => .pure id) fun _ => .ite (fun _ => .pure id) fun _ => ?_
  have hadvance {Q : Spot → Prop} (hQ : ∀ p, Q p → p.kind = operator) : Passes rules c Q advance :=
    advance_passes fun p hp => hQ p hp ▸ ne_endOfFile_of_bindingLevel hlevel
  refine .ite (fun _ => .look lineBreakBefore_stays fun _ => .ite (fun _ => .pure id) fun _ => ?_)
    fun _ => ?_
  · exact .passing (hadvance fun p hp => hp.1.1.2) fun _ => .bind typeNode_reads fun _ =>
      .bind (make_stays _ _).reads fun _ => .pure id
  · exact .passing (hadvance fun p hp => hp.1.2) fun _ => .bind rules_binary fun _ =>
      .bind (make_stays _ _).reads fun _ => .pure id

theorem binaryBody_reads {level : Nat} : Reads rules 3 P (binaryBody rules level) :=
  .look tokenPos_stays fun _ => .bind rules_unary fun _ => repeating_reads fun _ => binaryStep_turns

/-! ### Arrows -/

theorem skipArrowHead_reads : Reads rules c P (skipArrowHead rules) := by
  refine .look errorCount_stays fun _ => .look (at?_looks _) fun _ =>
    .optional (fun _ => skipBalanced_reads (by decide) (by decide)) <|
    .look errorCount_stays fun _ => .ite (fun _ => .pure id) fun _ =>
    .look (at?_looks _) fun _ => .ite (fun _ => .pure id) fun _ =>
    .bind skipParenthesized_reads fun _ => .look errorCount_stays fun _ => ?_
  have harrow : Reads rules 8 Anywhere (do return (← at? .arrow) && !(← lineBreakBefore)) :=
    .look (at?_looks _) fun _ => .look lineBreakBefore_stays fun _ => .pure id
  refine (accept_tries (by decide)).ite ?_ ?_
  · exact .bind skipType_reads fun _ => .look errorCount_stays fun _ => .ite (fun _ => .pure id)
      fun _ => harrow.on fun _ _ => trivial
  · refine .look errorCount_stays fun _ => .ite (fun _ => .pure id) fun _ => ?_
    exact .look (at?_looks _) fun _ => .look lineBreakBefore_stays fun _ => .pure id

theorem atAsyncArrow?_stays : Stays rules c P (atAsyncArrow? rules) := by
  refine lookAhead_stays <| .bind advance_reads fun _ => .look lineBreakBefore_stays fun _ =>
    .ite (fun _ => .pure id) fun _ => .look kind_looks fun _ => .ite (fun _ => ?_) fun _ =>
    skipArrowHead_reads
  exact .bind advance_reads fun _ => (at?_looks _).reads

/-- Where an arrow starts that was found: with `async` if it is asynchronous, and with a
parenthesis, type parameters or a name if it is not. -/
def StartsArrow (p : Spot) : Option Bool → Prop
  | some true => p.kind = .asyncKeyword
  | some false => p.kind = .openParen ∨ p.kind = .lessThan ∨ p.isName = true
  | none => True

theorem Spot.isName_of_async {p : Spot} (h : p.kind = .asyncKeyword) : p.isName = true := by
  have hlike : Kind.isIdentifierLike .asyncKeyword = true := by decide
  simp [Spot.isName, h, hlike]

theorem arrowHere?_looks : Looks rules c P (arrowHere? rules) StartsArrow := by
  have found {Q : Spot → Prop} (hQ : ∀ p, Q p → StartsArrow p (some false)) (b : Bool) :
      Looks rules c Q (pure (if b = true then some false else none)) StartsArrow :=
    .pure fun p hp => by
      split
      · exact hQ p hp
      · trivial
  refine .look kind_looks fun k => ?_
  split
  · refine .look atAsyncArrow?_stays fun b => .ite (fun _ => .pure fun p hp => hp.1.2) fun _ => ?_
    refine .look (nextIs_stays _) fun b => .ite (fun _ => .pure fun p hp => ?_)
      fun _ => .pure fun _ _ => trivial
    exact .inr (.inr (Spot.isName_of_async hp.1.1.2))
  · exact .look (lookAhead_stays skipArrowHead_reads) (found fun p hp => .inl hp.1.2)
  · exact .look (lookAhead_stays skipArrowHead_reads) (found fun p hp => .inr (.inl hp.1.2))
  · refine .look atIdentifier?_looks fun b => .ite (fun hb => ?_) fun _ => .pure fun _ _ => trivial
    exact .look (nextOnLine_stays _) (found fun p hp => .inr (.inr (hp.1.2 ▸ hb)))

theorem arrowParameter_passes (h : ∀ p, P p → p.isName = true) :
    Passes rules c P arrowParameter :=
  .look tokenPos_stays fun _ => .passing (identifier_passes fun p hp => h p hp.1) fun _ =>
    .bind lastStop_stays.reads fun _ => .bind (makeBetween_stays _ _ _ _).reads fun _ => .pure id

theorem arrowParameter_reads : Reads rules c P arrowParameter :=
  .look tokenPos_stays fun _ => .bind identifier_reads fun _ =>
    .bind lastStop_stays.reads fun _ => .bind (makeBetween_stays _ _ _ _).reads fun _ => .pure id

theorem arrowRest_reads {isAsync parenthesized : Bool} {pos : Nat} {types : Option NodeId}
    {parameters : NodeList} :
    Reads rules 8 P (arrowRest rules isAsync pos types parenthesized parameters) := by
  refine .bind resultType_reads fun _ => .bind (expect_tries (by decide)).reads fun _ =>
    .look (at?_looks _) fun _ => .either (fun h => functionBlock_reads fun p hp => hp.2.mp h)
    (fun _ => inContext_reads rules_assignment) fun _ => (makeFlagged_stays _ _ _).reads

theorem arrowFunction_passes {isAsync : Bool} (h : ∀ p, P p → StartsArrow p (some isAsync)) :
    Passes rules (c + 1) P (arrowFunction rules isAsync) := by
  refine .look tokenPos_stays fun _ => ?_
  cases isAsync with
  | true =>
    have hasync (p) (hp : P p) : p.kind = .asyncKeyword := h p hp
    refine .passing (advance_passes fun p hp => by simp [hasync p hp.1]) fun _ => ?_
    exact .bind typeParameters_reads fun _ => .look (at?_looks _) fun _ => .either
      (fun _ => inContext_reads parameterList_reads) (fun _ => arrowParameter_reads) fun _ =>
      arrowRest_reads
  | false =>
    -- The first of type parameters, parentheses and a name that is there passes a token.
    refine typeParameters_bind (fun _ => ?_) ?_
    · exact .look (at?_looks _) fun _ => .either (fun _ => inContext_reads parameterList_reads)
        (fun _ => arrowParameter_reads) fun _ => arrowRest_reads
    refine .look (at?_looks _) fun paren => .ite (fun hb => ?_) fun hb => ?_
    · refine .passing (inContext_goes (Q := On .openParen) ?_ fun p hp => hp.2.mp hb) fun _ =>
        arrowRest_reads
      exact parameterList_goes.mono (Nat.le_refl _) (fun _ => id) fun _ _ _ hp => hp
    · refine .passing (arrowParameter_passes fun p hp => ?_) fun _ => arrowRest_reads
      rcases h p hp.1.1.1 with hk | hk | hk
      · exact (hb (hp.2.mpr hk)).elim
      · exact (hp.1.2 hk).elim
      · exact hk

/-! ### Assignments and commas -/

theorem yieldExpression_passes (h : ∀ p, P p → p.kind = .yieldKeyword) :
    Passes rules c P (yieldExpression rules) := by
  refine .look tokenPos_stays fun _ => .passing (advance_passes fun p hp => by simp [h p hp.1])
    fun _ => .look lineBreakBefore_stays fun _ => .either (fun _ => .pure id)
    (fun _ => (accept_tries (by decide)).reads) fun _ => .look lineBreakBefore_stays fun _ =>
    .look kind_looks fun _ => .either (fun _ => rules_assignment) (fun _ => .pure id) fun _ =>
    (make_stays _ _).reads

theorem assignmentRest_reads {pos : Nat} {left : Option NodeId} :
    Reads rules c P (assignmentRest rules pos left) := by
  refine .bind joinGreater_reads fun _ => .look kind_looks fun operator => .ite (fun h => ?_)
    fun _ => .ite (fun h => ?_) fun _ => .pure id
  · refine .passing (advance_passes fun p hp hend => ?_) fun _ => .bind rules_assignment fun _ =>
      (make_stays _ _).reads
    rw [← hp.2, hend] at h
    exact absurd h (by decide)
  · exact .passing (advance_passes fun p hp => by simp [hp.2, h]) fun _ =>
      .bind assignmentAllowingIn_reads fun _ => .bind (expect_tries (by decide)).reads fun _ =>
      .bind rules_assignment fun _ => (make_stays _ _).reads

theorem assignmentBody_reads : Reads rules 4 P (assignmentBody rules) := by
  refine .look (at?_looks _) fun _ => .look get_stays fun _ => .ite (fun h => ?_) fun _ =>
    .look arrowHere?_looks fun arrow => ?_
  · have hyield := (Bool.and_eq_true_iff.mp h).1
    exact (yieldExpression_passes fun p hp => hp.1.2.mp hyield).reads
  cases arrow with
  | some isAsync => exact (arrowFunction_passes fun p hp => hp.2).reads
  | none =>
    exact .bind tokenPos_stays.reads fun _ => .bind rules_binary fun _ => assignmentRest_reads

theorem commaStep_turns {pos : Nat} {left : Option NodeId} :
    Turns rules c P (commaStep rules pos left) := by
  refine (accept_tries (by decide)).ite (.bind rules_assignment fun right => ?_) (.pure id)
  cases right with
  | none => exact .bind (errorHere_stays _).reads fun _ => .pure id
  | some right => exact .bind (make_stays _ _).reads fun _ => .pure id

theorem expressionBody_reads : Reads rules 5 P (expressionBody rules) :=
  .look tokenPos_stays fun _ => .bind rules_assignment fun _ => repeating_reads fun _ =>
    commaStep_turns

end Unchain.Grammar
