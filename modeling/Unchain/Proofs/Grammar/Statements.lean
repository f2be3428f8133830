import Unchain.Proofs.Grammar.Expressions

/-!
# Statements are read to the end

Every step of the grammar of statements answers. A list of statements goes on
whatever stands there: what no statement starts with is passed over
(`statementInto_passes`).
-/

namespace Unchain.Grammar

open Syntax (Data Flags IterationKind JumpKind LeaveKind NodeId NodeList VerbatimKind)
open Token (Kind)

variable {rules : Rules} {c : Nat} {P : Spot → Prop}

/-! ### Lists of statements -/

theorem statementInto_passes {nodes : Array NodeId} (h : ∀ p, P p → p.kind ≠ .endOfFile) :
    Passes rules (c + 7) P (statementInto rules nodes) := by
  refine .since h (fun _ => rules_statement) (fun before a now hne => ?_) fun before a => ?_
  · refine .look (at?_looks _) fun _ => .ite (fun _ => ?_) fun _ => .pure id
    exact .bind (errorHere_stays _).reads fun _ => .bind advance_reads fun _ => .pure id
  · refine .look (at?_looks _) fun atEnd => .ite (fun _ => ?_) fun hstuck => .absurd fun p hp => ?_
    · exact .look (errorHere_stays _) fun _ => .passing (advance_passes fun p hp => hp.1.1)
        fun _ => .pure id
    · have hend : atEnd = true := by simpa using hstuck
      exact hp.1 (hp.2.mp hend)

theorem statementsUntil_reads {closing : List Kind} (hclosing : .endOfFile ∈ closing) :
    Reads rules (c + 7) P (statementsUntil rules closing) := by
  refine repeating_reads fun nodes => .look (atAny?_looks _) fun ended => .ite (fun _ => .pure id)
    fun hended => .passing (statementInto_passes fun p hp hend => ?_) fun _ => .pure id
  exact hended (hp.2.mpr (hend ▸ hclosing))

/-- A block that starts with its brace passes it before it needs a rule for its statements. -/
theorem blockBody_goes (h : 7 ≤ c ∨ ∀ p, P p → p.kind = .openBrace) :
    Goes rules c P (blockBody rules) fun _ => ∀ p, P p → p.kind = .openBrace := by
  refine .look tokenPos_stays fun _ => ((expect_tries (by decide)).starting (fun _ => ?_)
    (h.imp_right fun h p hp => h p hp.1) (by decide)).mono (Nat.le_refl c) (fun _ => id)
    fun _ h p hp => h p hp.1
  exact .look lineBreakBefore_stays fun _ => .look tokenPos_stays fun _ =>
    .bind (statementsUntil_reads (by simp)) fun _ => .look tokenPos_stays fun _ =>
    .bind (expect_tries (by decide)).reads fun _ => (make_stays _ _).reads

theorem expressionStatement_reads : Reads rules (c + 6) P (expressionStatement rules) := by
  refine .look tokenPos_stays fun _ => .bind expressionAllowingIn_reads fun e => ?_
  cases e with
  | none => exact .pure id
  | some e => exact .bind endStatement_reads fun _ => (make_stays _ _).reads

theorem labeledStatement_passes (h : ∀ p, P p → p.isName = true) :
    Passes rules c P (labeledStatement rules) :=
  .look tokenPos_stays fun _ => .passing (identifier_passes fun p hp => h p hp.1) fun _ =>
    .bind (expect_tries (by decide)).reads fun _ => .bind rules_statement fun _ =>
    (make_stays _ _).reads

/-! ### Variables -/

theorem atLetDeclaration?_stays : Stays rules c P atLetDeclaration? :=
  lookAhead_stays <| .bind advance_reads fun _ => .bind kind_looks.reads fun _ => .pure id

theorem variableDeclaration_reads :
    Reads rules (c + 1) P (variableDeclaration rules) := by
  refine .look tokenPos_stays fun _ => .bind rules_bindingName fun _ =>
    .bind (accept_tries (by decide)).reads fun _ => .bind declaredType_reads fun _ => ?_
  refine (accept_tries (by decide)).ite ?_ ?_
  · exact .bind rules_assignment fun _ => .bind (make_stays _ _).reads fun _ => .pure id
  · exact .pureBind (.bind (make_stays _ _).reads fun _ => .pure id)

theorem variableDeclarations_reads :
    Reads rules (c + 1) P (variableDeclarations rules) := by
  refine .look kind_looks fun _ => .bind advance_reads fun _ => .look tokenPos_stays fun _ =>
    .bind (repeating_reads fun nodes => ?_) fun _ => .bind lastStop_stays.reads fun _ => .pure id
  refine .bind variableDeclaration_reads fun ⟨node, named⟩ => .ite (fun _ => ?_) fun _ => .pure id
  exact (accept_tries (by decide)).bind (.pure id) (.pure id)

theorem variableStatement_reads {pos : Nat} {modifiers : Option NodeList} :
    Reads rules (c + 1) P (variableStatement rules pos modifiers) :=
  .bind variableDeclarations_reads fun ⟨_, _⟩ => .bind endStatement_reads fun _ =>
    (makeFlagged_stays _ _ _).reads

/-! ### Functions and classes -/

theorem functionDeclaration_reads {pos : Nat} {modifiers : Option NodeList} :
    Reads rules (c + 1) P (functionDeclaration rules pos modifiers) := by
  refine .bind (accept_tries (by decide)).reads fun _ => .bind (expect_tries (by decide)).reads
    fun _ => .bind (accept_tries (by decide)).reads fun _ => .look atIdentifier?_looks fun _ => ?_
  exact .either (fun _ => identifier_reads) (fun _ => .pure id) fun _ => functionRest_reads

theorem optionalAbstract_reads {nodes : Array NodeId} : Reads rules c P (optionalAbstract nodes) :=
  .look (at?_looks _) fun _ => .ite (fun _ => .bind tokenNode_reads fun _ => .pure id)
    fun _ => .pure id

/-! ### Control flow -/

theorem parenthesizedCondition_reads :
    Reads rules (c + 6) P (parenthesizedCondition rules) :=
  .bind (expect_tries (by decide)).reads fun _ => .bind expressionAllowingIn_reads fun _ =>
    .bind (expect_tries (by decide)).reads fun _ => .pure id

section Keyword

variable (h : ∀ p, P p → p.kind ≠ .endOfFile)
include h

theorem ifStatement_passes : Passes rules c P (ifStatement rules) := by
  refine .look tokenPos_stays fun _ => .passing (advance_passes fun p hp => h p hp.1) fun _ =>
    .bind parenthesizedCondition_reads fun _ => .bind rules_statement fun _ =>
    (accept_tries (by decide)).ite ?_ ?_
  · exact .bind rules_statement fun _ => (make_stays _ _).reads
  · exact .pureBind (make_stays _ _).reads

theorem doStatement_passes : Passes rules c P (doStatement rules) :=
  .look tokenPos_stays fun _ => .passing (advance_passes fun p hp => h p hp.1) fun _ =>
    .bind rules_statement fun _ => .bind (expect_tries (by decide)).reads fun _ =>
    .bind parenthesizedCondition_reads fun _ => .bind (accept_tries (by decide)).reads fun _ =>
    (make_stays _ _).reads

theorem whileStatement_passes : Passes rules c P (whileStatement rules) :=
  .look tokenPos_stays fun _ => .passing (advance_passes fun p hp => h p hp.1) fun _ =>
    .bind parenthesizedCondition_reads fun _ => .bind rules_statement fun _ =>
    (make_stays _ _).reads

end Keyword

theorem atLoopVariables?_stays : Stays rules c P atLoopVariables? :=
  .look (atAny?_looks _) fun _ => .ite (fun _ => .pure fun _ _ => trivial) fun _ =>
    .look (at?_looks _) fun _ => .ite (fun _ => atLetDeclaration?_stays) fun _ =>
    .pure fun _ _ => trivial

theorem loopInitializer_reads : Reads rules (c + 6) P (loopInitializer rules) := by
  refine .look (at?_looks _) fun _ => .ite (fun _ => .pure id) fun _ =>
    .look atLoopVariables?_stays fun _ => .ite (fun _ => ?_) fun _ =>
    inContext_reads rules_expression
  exact .look tokenPos_stays fun _ => .bind (inContext_reads variableDeclarations_reads)
    fun ⟨_, _⟩ => (makeFlagged_stays _ _ _).reads

theorem loopPart_reads {closing : Kind} :
    Reads rules (c + 6) P (loopPart rules closing) :=
  .look (at?_looks _) fun _ => .ite (fun _ => .pure id) fun _ => expressionAllowingIn_reads

theorem iterationHere?_stays : Stays rules c P iterationHere? := by
  refine .look kind_looks fun k => ?_
  split <;> exact .pure fun _ _ => trivial

theorem forStatement_passes (h : ∀ p, P p → p.kind ≠ .endOfFile) :
    Passes rules c P (forStatement rules) := by
  refine .look tokenPos_stays fun _ => .passing (advance_passes fun p hp => h p hp.1) fun _ =>
    .bind (accept_tries (by decide)).reads fun _ => .bind (expect_tries (by decide)).reads fun _ =>
    .bind loopInitializer_reads fun _ => .bind iterationHere?_stays.reads fun iteration => ?_
  cases iteration with
  | some k =>
    refine .bind advance_reads fun _ => .either (fun _ => assignmentAllowingIn_reads)
      (fun _ => expressionAllowingIn_reads) fun _ => ?_
    exact .bind (expect_tries (by decide)).reads fun _ => .bind rules_statement fun _ =>
      (make_stays _ _).reads
  | none =>
    exact .bind (expect_tries (by decide)).reads fun _ => .bind loopPart_reads fun _ =>
      .bind (expect_tries (by decide)).reads fun _ => .bind loopPart_reads fun _ =>
      .bind (expect_tries (by decide)).reads fun _ => .bind rules_statement fun _ =>
      (make_stays _ _).reads

theorem jumpStatement_passes {k : JumpKind} (h : ∀ p, P p → p.kind ≠ .endOfFile) :
    Passes rules c P (jumpStatement k) := by
  refine .look tokenPos_stays fun _ => .passing (advance_passes fun p hp => h p hp.1) fun _ =>
    .look canEndStatement_stays fun _ => .look atIdentifier?_looks fun _ =>
    .either (fun _ => identifier_reads) (fun _ => .pure id) fun _ => ?_
  exact .bind endStatement_reads fun _ => (make_stays _ _).reads

theorem leaveStatement_passes {k : LeaveKind} (h : ∀ p, P p → p.kind ≠ .endOfFile) :
    Passes rules c P (leaveStatement rules k) := by
  refine .look tokenPos_stays fun _ => .passing (advance_passes fun p hp => h p hp.1) fun _ =>
    .look canEndStatement_stays fun _ => .either (fun _ => .pure id)
    (fun _ => expressionAllowingIn_reads) fun _ => ?_
  exact .bind endStatement_reads fun _ => (make_stays _ _).reads

theorem switchClause_passes (h : ∀ p, P p → p.kind ≠ .endOfFile) :
    Passes rules c P (switchClause rules) := by
  refine .look tokenPos_stays fun _ => ?_
  extract_lets clause
  have hclause (head) : Reads rules 8 Anywhere (clause head) :=
    .bind (expect_tries (by decide)).reads fun _ => .look tokenPos_stays fun _ =>
      .bind (statementsUntil_reads (by simp)) fun _ => .look tokenPos_stays fun _ =>
      (make_stays _ _).reads
  clear_value clause
  refine (accept_tries (by decide)).ite ?_ ?_
  · exact .bind expressionAllowingIn_reads fun _ => .pureBind (hclause _)
  · exact .passing (advance_passes fun p hp => h p hp.1.1) fun _ => .pureBind (hclause _)

theorem switchStatement_passes (h : ∀ p, P p → p.kind ≠ .endOfFile) :
    Passes rules c P (switchStatement rules) := by
  refine .look tokenPos_stays fun _ => .passing (advance_passes fun p hp => h p hp.1) fun _ =>
    .bind parenthesizedCondition_reads fun _ => .look tokenPos_stays fun _ =>
    .bind (expect_tries (by decide)).reads fun _ => .look lineBreakBefore_stays fun _ =>
    .look tokenPos_stays fun _ => .bind (repeating_reads fun nodes => ?_) fun _ =>
    .look tokenPos_stays fun _ => .bind (expect_tries (by decide)).reads fun _ =>
    .bind (make_stays _ _).reads fun _ => (make_stays _ _).reads
  refine .look (atAny?_looks _) fun _ => .ite (fun hk => ?_) fun _ => .pure id
  refine .passing (switchClause_passes fun p hp hend => ?_) fun _ => .pure id
  simp [hend, hk] at hp

theorem catchBinding_reads : Reads rules c P (catchBinding rules) := by
  refine (accept_tries (by decide)).ite ?_ (.pure id)
  exact .look tokenPos_stays fun _ => .bind rules_bindingName fun _ => .bind declaredType_reads
    fun _ => .look lastStop_stays fun _ => .bind (expect_tries (by decide)).reads fun _ =>
    (makeBetween_stays _ _ _ _).reads

theorem catchClause_reads : Reads rules c P (catchClause rules) := by
  refine .look (at?_looks _) fun _ => .ite (fun h => ?_) fun _ => .pure id
  exact .look tokenPos_stays fun _ => .passing
    (advance_passes fun p hp => by simp [hp.1.2.mp h]) fun _ => .bind catchBinding_reads fun _ =>
    .bind rules_block fun _ => (make_stays _ _).reads

theorem tryStatement_passes (h : ∀ p, P p → p.kind ≠ .endOfFile) :
    Passes rules c P (tryStatement rules) := by
  refine .look tokenPos_stays fun _ => .passing (advance_passes fun p hp => h p hp.1) fun _ =>
    .bind rules_block fun _ => .bind catchClause_reads fun _ => ?_
  refine (accept_tries (by decide)).ite (.bind rules_block fun _ => ?_) (.pureBind ?_)
  · exact .optional (fun _ => (expect_tries (by decide)).reads) (make_stays _ _).reads
  · exact .optional (fun _ => (expect_tries (by decide)).reads) (make_stays _ _).reads

/-! ### Declarations that are kept as text -/

/-- Every part of a declaration that is kept as text passes a token. -/
theorem verbatimStep_turns {previous : Option Kind} :
    Turns rules (c + 1) P (verbatimStep rules previous) := by
  refine .look kind_looks fun k => ?_
  extract_lets part
  have hpart (ended) : Turns rules (c + 1) (On k) (part ended) := by
    refine .ite (fun _ => .pure id) fun _ => ?_
    split
    · exact .pure id
    · exact .pure id
    · exact .bind advance_reads fun _ => .pure id
    · exact .passing (skipBalanced_passes (fun _ => id) (by decide) (by decide)) fun _ => .pure id
    · exact .passing (skipParenthesized_passes fun _ => id) fun _ => .pure id
    · exact .passing (skipBalanced_passes (fun _ => id) (by decide) (by decide)) fun _ => .pure id
    · exact .passing (rules_templateRest fun _ => id) fun _ => .pure id
    · next hend _ _ _ _ _ _ =>
      exact .passing (advance_passes fun p hp hk => hend (hp ▸ hk)) fun _ => .pure id
  clear_value part
  cases previous with
  | none => exact .pureBind ((hpart _).on fun p hp => hp.2)
  | some previous =>
    exact .look lineBreakBefore_stays fun _ => .pureBind ((hpart _).on fun p hp => hp.1.2)

theorem verbatimStatement_reads {k : VerbatimKind} {pos : Nat} :
    Reads rules (c + 1) P (verbatimStatement rules k pos) :=
  .bind (repeating_reads fun _ => verbatimStep_turns) fun _ => (makeVerbatim_stays _ _).reads

/-! ### Modules -/

theorem declarationFollows_stays {isDefault : Bool} :
    Stays rules c P (declarationFollows isDefault) := by
  have hwords {α : Type} {step : Reader α} (hstep : Reads rules c Anywhere step) :
      Stays rules c Anywhere (lookAhead do
        advance
        if isDefault then advance
        step) :=
    lookAhead_stays <| .bind advance_reads fun _ => .optional (fun _ => advance_reads) hstep
  refine .look ((hwords kind_looks.reads).mono (Nat.le_refl c) (fun _ _ => trivial) fun _ _ _ => id)
    fun next => ?_
  split
  iterate 5
    · exact .pure fun _ _ => trivial
  · refine .look (lookAhead_stays ?_) fun _ => .pure fun _ _ => trivial
    exact .bind advance_reads fun _ => .bind advance_reads fun _ => (at?_looks _).reads
  · refine (hwords ?_).mono (Nat.le_refl c) (fun _ _ => trivial) fun _ _ _ => id
    exact .bind advance_reads fun _ => .bind (at?_looks _).reads fun _ =>
      .bind lineBreakBefore_stays.reads fun _ => .pure id
  · exact .pure fun _ _ => trivial

theorem exportedDeclaration_reads {pos : Nat} {modifiers : Array NodeId} :
    Reads rules (c + 2) P (exportedDeclaration rules pos modifiers) := by
  refine .look kind_looks fun k => ?_
  split
  iterate 3
    · exact variableStatement_reads
  · exact (classRest_goes (.inl (Nat.le_add_left 2 c))).reads
  · exact functionDeclaration_reads

theorem exportStatement_reads {pos : Nat} {decorators : Array NodeId} :
    Reads rules (c + 5) P (exportStatement rules pos decorators) := by
  refine .look (nextIs_stays _) fun isDefault => .look declarationFollows_stays fun _ =>
    .ite (fun _ => .bind tokenNode_reads fun _ => ?_) fun _ => .ite (fun _ => ?_) fun _ =>
    verbatimStatement_reads
  · have hrest (nodes) : Reads rules (c + 5) Anywhere (do
        exportedDeclaration rules pos (← optionalAbstract nodes)) :=
      .bind optionalAbstract_reads fun _ => exportedDeclaration_reads
    refine .ite (fun _ => ?_) fun _ => .pureBind (hrest _)
    exact .bind tokenNode_reads fun _ => .pureBind (hrest _)
  · exact .bind advance_reads fun _ => .bind advance_reads fun _ =>
      .bind assignmentAllowingIn_reads fun _ => .bind endStatement_reads fun _ =>
      (make_stays _ _).reads

/-! ### Any statement -/

theorem plainStatement_reads : Reads rules (c + 6) P (plainStatement rules) := by
  refine .look atIdentifier?_looks fun name => .eitherLook
    (I := fun p b => b = true → p.isName = true) (fun h => ?_)
    (fun _ => .pure fun _ _ => nofun) fun label =>
    .ite (fun h => ?_) fun _ => expressionStatement_reads
  · exact (nextIs_stays _).mono (Nat.le_refl _) (fun _ => id) fun p _ hp _ _ => hp.2 ▸ h
  · exact (labeledStatement_passes fun p hp => hp.2 h).reads

theorem verbatimIf_reads {pos : Nat} {k : VerbatimKind} {p : Kind → Bool} :
    Reads rules (c + 6) P (verbatimIf rules pos k p) :=
  .look (nextOnLine_stays _) fun _ => .ite (fun _ => verbatimStatement_reads) fun _ =>
    plainStatement_reads

theorem decoratedStatement_reads {pos : Nat} :
    Reads rules (c + 5) P (decoratedStatement rules pos) :=
  .bind decorators_reads fun _ => .bind optionalAbstract_reads fun _ => .look (at?_looks _)
    fun _ => .ite (fun _ => exportStatement_reads) fun _ => (classRest_goes (.inl (by omega))).reads

theorem statementBody_reads : Reads rules 6 P (statementBody rules) := by
  refine .look tokenPos_stays fun pos => .look kind_looks fun k => ?_
  split
  · exact (rules_block_passes fun p hp => hp.2).reads
  · exact .bind advance_reads fun _ => (make_stays _ _).reads
  · exact variableStatement_reads
  · exact .look atLetDeclaration?_stays fun _ => .ite (fun _ => variableStatement_reads) fun _ =>
      plainStatement_reads
  · exact .look (nextIs_stays _) fun _ => .ite (fun _ => verbatimStatement_reads) fun _ =>
      variableStatement_reads
  · exact functionDeclaration_reads
  · exact .look (nextOnLine_stays _) fun _ => .ite (fun _ => functionDeclaration_reads) fun _ =>
      plainStatement_reads
  · exact (classRest_goes (.inl (by omega))).reads
  · exact .look (nextOnLine_stays _) fun _ => .ite (fun _ => .bind optionalAbstract_reads fun _ =>
      (classRest_goes (.inl (by omega))).reads) fun _ => plainStatement_reads
  · exact decoratedStatement_reads
  · exact (ifStatement_passes fun p hp => by simp [hp.2]).reads
  · exact (doStatement_passes fun p hp => by simp [hp.2]).reads
  · exact (whileStatement_passes fun p hp => by simp [hp.2]).reads
  · exact (forStatement_passes fun p hp => by simp [hp.2]).reads
  · exact (jumpStatement_passes fun p hp => by simp [hp.2]).reads
  · exact (jumpStatement_passes fun p hp => by simp [hp.2]).reads
  · exact (leaveStatement_passes fun p hp => by simp [hp.2]).reads
  · exact (leaveStatement_passes fun p hp => by simp [hp.2]).reads
  · exact (switchStatement_passes fun p hp => by simp [hp.2]).reads
  · exact (tryStatement_passes fun p hp => by simp [hp.2]).reads
  · exact .bind advance_reads fun _ => .bind endStatement_reads fun _ => (make_stays _ _).reads
  · refine .look (lookAhead_stays <| .bind advance_reads fun _ => (atAny?_looks _).reads)
      fun _ => ?_
    exact .ite (fun _ => plainStatement_reads) fun _ => verbatimStatement_reads
  · exact exportStatement_reads
  · exact verbatimIf_reads
  · exact verbatimIf_reads
  · exact verbatimStatement_reads
  · exact verbatimIf_reads
  · exact verbatimIf_reads
  · exact verbatimIf_reads
  · exact plainStatement_reads

end Unchain.Grammar
