import Unchain.Proofs.Scoping.Expressions

/-!
# Statements go on with the row

A statement is made of quiet parts and of the statements in it, which stand in a
row. What is read and then kept as text, and variables, functions and classes, are
quiet as well and may stand in the row around them (`Findings.Entails.line`).
-/

namespace Unchain.Grammar

open Syntax (Data IterationKind JumpKind LeaveKind NodeId NodeList VerbatimKind)
open Token (Cursor Kind)

variable {text : List Char} {rules : Rules} {P : Cursor → Prop} {pos : Nat}

/-! ### Steps without rules -/

/-- The word becomes one more modifier before the declaration. -/
theorem optionalAbstract_gathers {nodes : Array NodeId} :
    Gathers text P ⟨pos, nodes.toList, []⟩ (optionalAbstract nodes)
      fun nodes => ⟨pos, nodes.toList, []⟩ := by
  refine .ask (at?_asks _) fun _ => .ite (fun _ => ?_) fun _ => .pure (.refl _)
  exact (tokenNode_hushes _).bind fun id => .pure (.of_eq (by simp))

theorem jumpStatement_lines {k : JumpKind} : Lines text P (jumpStatement k) Option.toList := by
  refine .inner fun p => advance_skips.finds.bind fun _ => .ask canEndStatement_asks fun _ =>
    .ask atIdentifier?_asks fun _ => .either (G := fun label => ⟨p, label.toList, []⟩)
    (fun _ => identifier_hushes _) (fun _ => .pure (.refl _)) fun label => ?_
  exact endStatement_skips.finds.bind fun _ =>
    (make_quiet rfl rfl (List.Subset.refl _)).after fun _ => .line

section Rules

variable (hr : Scopes text rules)
include hr

theorem statement_lines : Lines text P (rules .statement) Option.toList := hr.line .statement rfl

theorem block_lines : Lines text P (rules .block) Option.toList := hr.line .block rfl

/-! ### Lists of statements -/

theorem statementInto_gathers {F : Findings} {nodes : Array NodeId} :
    Gathers text P (F.lined nodes.toList) (statementInto rules nodes)
      fun nodes => F.lined nodes.toList := by
  refine .ask tokenPos_asks fun before => (statement_lines hr _).bind fun id =>
    .ask tokenPos_asks fun now => .ask (at?_asks _) fun _ => .ite (fun _ => ?_) fun _ => ?_
  · exact (errorHere_skips _).finds.bind fun _ => advance_skips.finds.bind fun _ =>
      .pure (.of_eq (by simp))
  · exact .pure (.of_eq (by simp))

theorem statementsUntil_lines {closing : List Kind} :
    Lines text P (statementsUntil rules closing) Array.toList := by
  intro F
  refine .loop (.of_eq (by simp)) fun nodes => .ask (atAny?_asks _) fun _ =>
    .ite (fun _ => .pure (.refl _)) fun _ => ?_
  exact (statementInto_gathers hr).bind fun nodes => .pure (.refl _)

theorem blockBody_lines : Lines text P (blockBody rules) Option.toList := by
  refine .inner fun p => (expect_skips _).finds.bind fun _ => .ask lineBreakBefore_asks fun _ =>
    .ask tokenPos_asks fun _ => (statementsUntil_lines hr _).bind fun nodes =>
    .ask tokenPos_asks fun _ => (expect_skips _).finds.bind fun _ => ?_
  exact make_compound rfl rfl (by simp [Data.children, listOf])

theorem expressionStatement_lines : Lines text P (expressionStatement rules) Option.toList := by
  refine .inner fun p => (expressionAllowingIn_hushes hr _).bind fun e => ?_
  cases e with
  | none => exact .pure (.refl _)
  | some e =>
    refine endStatement_skips.finds.bind fun _ => ?_
    exact make_statement [e] [] rfl (List.Subset.refl _) rfl (List.Subset.refl _)
      (List.nil_subset _)

theorem labeledStatement_lines : Lines text P (labeledStatement rules) Option.toList := by
  refine .inner fun p => (identifier_hushes _).bind fun label => (expect_skips _).finds.bind
    fun _ => (statement_lines hr _).bind fun statement => ?_
  exact make_compound rfl rfl (by simp [Data.children])

/-! ### Variables -/

theorem variableDeclaration_hushes :
    Hushes text P (variableDeclaration rules) fun a => a.1.toList := by
  refine .inner fun p => (bindingName_hushes hr _).bind fun name => (accept_skips _).finds.bind
    fun isDefinite => (declaredType_hushes hr _).bind fun type => (accept_skips _).finds.bind
    fun _ => .ite (fun _ => ?_) fun _ => .pureBind ?_
  · refine (assignment_hushes hr _).bind fun initializer => ?_
    exact .bind (make_quiet rfl rfl (List.Subset.refl _)) fun id => .pure (.refl _)
  · exact .bind (make_quiet rfl rfl (by simp [Data.children])) fun id => .pure (.refl _)

theorem variableDeclarations_hushes :
    Hushes text P (variableDeclarations rules) fun a => a.2.nodes := by
  intro F
  refine .ask kind_asks fun k => advance_skips.finds.bind fun _ =>
    .ask tokenPos_asks fun listPos => ?_
  refine .bind (G := fun nodes => F.hushed nodes.toList) (.loop (.of_eq (by simp)) fun nodes => ?_)
    fun nodes => .ask lastStop_asks fun _ => .pure (.refl _)
  refine (variableDeclaration_hushes hr _).bind fun (node, named) => .ite (fun _ => ?_)
    fun _ => .pure (.of_eq (by simp))
  refine (accept_skips _).finds.bind fun more => ?_
  cases more <;> exact .pure (.of_eq (by simp))

theorem variableStatement_gathers {modifiers : Option NodeList} :
    Gathers text P ⟨pos, Data.listNodes modifiers, []⟩ (variableStatement rules pos modifiers)
      fun id => ⟨pos, id.toList, []⟩ := by
  refine (variableDeclarations_hushes hr _).bind fun (flags, declarations) =>
    endStatement_skips.finds.bind fun _ => ?_
  exact makeFlagged_quiet rfl rfl (List.Subset.refl _)

/-! ### Functions -/

theorem functionDeclaration_gathers {modifiers : Option NodeList} :
    Gathers text P ⟨pos, Data.listNodes modifiers, []⟩ (functionDeclaration rules pos modifiers)
      fun id => ⟨pos, id.toList, []⟩ := by
  refine (accept_skips _).finds.bind fun isAsync => (expect_skips _).finds.bind fun _ =>
    (accept_skips _).finds.bind fun isGenerator => .ask atIdentifier?_asks fun _ =>
    .either (G := fun name => ⟨pos, Data.listNodes modifiers ++ name.toList, []⟩)
    (fun _ => identifier_hushes _) (fun _ => .pure (.of_eq (by simp))) fun name => ?_
  exact functionRest_gathers hr

/-! ### Control flow -/

theorem parenthesizedCondition_hushes :
    Hushes text P (parenthesizedCondition rules) Option.toList := by
  intro F
  exact (expect_skips _).finds.bind fun _ => (expressionAllowingIn_hushes hr _).bind fun e =>
    (expect_skips _).finds.bind fun _ => .pure (.refl _)

theorem ifStatement_lines : Lines text P (ifStatement rules) Option.toList := by
  refine .inner fun p => advance_skips.finds.bind fun _ =>
    (parenthesizedCondition_hushes hr _).bind fun condition => (statement_lines hr _).bind
    fun thenStatement => (accept_skips _).finds.bind fun _ => .either
    (G := fun last => ⟨p, condition.toList, thenStatement.toList ++ last.toList⟩)
    (fun _ => statement_lines hr _) (fun _ => .pure (.of_eq (by simp))) fun elseStatement => ?_
  exact make_compound rfl rfl (by simp [Data.children])

theorem doStatement_lines : Lines text P (doStatement rules) Option.toList := by
  refine .inner fun p => advance_skips.finds.bind fun _ => (statement_lines hr _).bind
    fun statement => (expect_skips _).finds.bind fun _ => (parenthesizedCondition_hushes hr _).bind
    fun condition => (accept_skips _).finds.bind fun _ => ?_
  exact make_statement [] _ rfl (List.nil_subset _) (by simp [Data.children]) (List.nil_subset _)
    (List.Subset.refl _)

theorem whileStatement_lines : Lines text P (whileStatement rules) Option.toList := by
  refine .inner fun p => advance_skips.finds.bind fun _ =>
    (parenthesizedCondition_hushes hr _).bind fun condition => (statement_lines hr _).bind
    fun statement => ?_
  exact make_compound rfl rfl (by simp [Data.children])

theorem loopInitializer_hushes : Hushes text P (loopInitializer rules) Option.toList := by
  intro F
  unfold loopInitializer withoutIn
  refine .ask (at?_asks _) fun _ => .ite (fun _ => .pure (.of_eq (by simp))) fun _ =>
    .ask atLoopVariables?_asks fun _ => .ite (fun _ => Hushes.inner (fun p => ?_) F) fun _ => ?_
  · refine (inContext_gathers (variableDeclarations_hushes hr _)).bind
      fun (flags, declarations) => ?_
    exact makeFlagged_quiet rfl rfl (List.Subset.refl _)
  · exact inContext_gathers (hr.hush .expression rfl rfl (fun _ => trivial) F)

theorem loopPart_hushes {closing : Kind} :
    Hushes text P (loopPart rules closing) Option.toList := by
  intro F
  refine .ask (at?_asks _) fun _ => .ite (fun _ => .pure (.of_eq (by simp))) fun _ => ?_
  exact expressionAllowingIn_hushes hr F

theorem forStatement_lines : Lines text P (forStatement rules) Option.toList := by
  refine .inner fun p => advance_skips.finds.bind fun _ => (accept_skips _).finds.bind
    fun awaits => (expect_skips _).finds.bind fun _ => (loopInitializer_hushes hr _).bind
    fun initializer => .ask iterationHere?_asks fun iteration => ?_
  cases iteration with
  | some k =>
    refine advance_skips.finds.bind fun _ => .either
      (G := fun e => ⟨p, initializer.toList ++ e.toList, []⟩)
      (fun _ => assignmentAllowingIn_hushes hr _) (fun _ => expressionAllowingIn_hushes hr _)
      fun e => (expect_skips _).finds.bind fun _ => (statement_lines hr _).bind fun statement => ?_
    exact make_compound rfl rfl (by simp [Data.children])
  | none =>
    refine (expect_skips _).finds.bind fun _ => (loopPart_hushes hr _).bind fun condition =>
      (expect_skips _).finds.bind fun _ => (loopPart_hushes hr _).bind fun incrementor =>
      (expect_skips _).finds.bind fun _ => (statement_lines hr _).bind fun statement => ?_
    exact make_compound rfl rfl (by simp [Data.children])

theorem leaveStatement_lines {k : LeaveKind} :
    Lines text P (leaveStatement rules k) Option.toList := by
  refine .inner fun p => advance_skips.finds.bind fun _ => .ask canEndStatement_asks fun _ =>
    .either (G := fun e => ⟨p, e.toList, []⟩) (fun _ => .pure (.refl _))
    (fun _ => expressionAllowingIn_hushes hr _) fun e => endStatement_skips.finds.bind fun _ => ?_
  exact make_statement e.toList [] rfl (List.Subset.refl _)
    (by simp [Data.children]) (List.Subset.refl _) (List.nil_subset _)

theorem switchClause_lines : Lines text P (switchClause rules) Option.toList := by
  refine .inner fun p => ?_
  have hrest (k : Syntax.ClauseKind) (e : Option NodeId) :
      Gathers text AnyToken ⟨p, e.toList, []⟩ (do
        let _ ← expect .colon
        let listPos ← tokenPos
        let nodes ← statementsUntil rules [.caseKeyword, .defaultKeyword, .closeBrace, .endOfFile]
        let listStop ← tokenPos
        make (.clause k e (listOf nodes listPos listStop false)) p)
        fun id => ⟨p, [], id.toList⟩ := by
    refine (expect_skips _).finds.bind fun _ => .ask tokenPos_asks fun _ =>
      (statementsUntil_lines hr _).bind fun nodes => .ask tokenPos_asks fun _ => ?_
    exact make_compound rfl rfl (by simp [Data.children, listOf])
  refine (accept_skips _).finds.bind fun _ => .ite (fun _ => ?_) fun _ => ?_
  · exact (expressionAllowingIn_hushes hr _).bind fun e => .pureBind (hrest _ e)
  · exact advance_skips.finds.bind fun _ => .pureBind (hrest _ none)

/-- The clauses stand in a block of their own, which starts with the brace. -/
theorem switchStatement_lines : Lines text P (switchStatement rules) Option.toList := by
  refine .inner fun p => advance_skips.finds.bind fun _ =>
    (parenthesizedCondition_hushes hr _).bind fun e => .ask tokenPos_asks fun blockPos => ?_
  have hcases : Gathers text (fun c => AnyToken c ∧ c.start = blockPos) (.opened blockPos) (do
      let _ ← expect .openBrace
      let multiLine ← lineBreakBefore
      let listPos ← tokenPos
      let nodes ← repeating #[] fun nodes => do
        if ← atAny? [.caseKeyword, .defaultKeyword] then
          return .again (pushOption nodes (← switchClause rules))
        else return .done nodes
      let listStop ← tokenPos
      let _ ← expect .closeBrace
      make (.block .cases (listOf nodes listPos listStop false) multiLine) blockPos)
      fun id => ⟨blockPos, [], id.toList⟩ := by
    refine (expect_skips _).finds.bind fun _ => .ask lineBreakBefore_asks fun _ =>
      .ask tokenPos_asks fun listPos => .bind (G := fun nodes => ⟨blockPos, [], nodes.toList⟩)
      (.loop (.refl _) fun nodes => ?_) fun nodes => .ask tokenPos_asks fun _ =>
      (expect_skips _).finds.bind fun _ => ?_
    · refine .ask (atAny?_asks _) fun _ => .ite (fun _ => ?_) fun _ => .pure (.refl _)
      exact (switchClause_lines hr _).bind fun id => .pure (.of_eq (by simp))
    · exact make_compound rfl rfl (by simp [Data.children, listOf])
  -- The block is a construct of its own, which the row of the switch goes on with.
  have hmake (cases : Option NodeId) : Gathers text AnyToken ⟨p, e.toList, cases.toList⟩
      (make (.switch e cases) p) fun id => ⟨p, [], id.toList⟩ :=
    make_compound rfl rfl (by simp [Data.children])
  have hrow := hcases.lining (F := .hushed (.opened p) e.toList) fun _ hc => hc.2
  simpa only [bind_assoc] using hrow.bind hmake

theorem catchBinding_hushes : Hushes text P (catchBinding rules) Option.toList := by
  intro F
  refine (accept_skips _).finds.bind fun _ => .ite (fun _ => Hushes.inner (fun p => ?_) F)
    fun _ => .pure (.of_eq (by simp))
  refine (bindingName_hushes hr _).bind fun name => (declaredType_hushes hr _).bind fun type =>
    .ask lastStop_asks fun stop => (expect_skips _).finds.bind fun _ => ?_
  exact makeBetween_quiet rfl rfl (by simp [Data.children])

theorem catchClause_lines : Lines text P (catchClause rules) Option.toList := by
  intro F
  refine .ask (at?_asks _) fun _ => .ite (fun _ => Lines.inner (fun p => ?_) F)
    fun _ => .pure (.of_eq (by simp))
  refine advance_skips.finds.bind fun _ => (catchBinding_hushes hr _).bind fun binding =>
    (block_lines hr _).bind fun block => ?_
  exact make_compound rfl rfl (by simp [Data.children])

theorem tryStatement_lines : Lines text P (tryStatement rules) Option.toList := by
  refine .inner fun p => advance_skips.finds.bind fun _ => (block_lines hr _).bind fun block =>
    (catchClause_lines hr _).bind fun handler => (accept_skips _).finds.bind fun _ => .either
    (G := fun last => ⟨p, [], block.toList ++ handler.toList ++ last.toList⟩)
    (fun _ => block_lines hr _) (fun _ => .pure (.of_eq (by simp))) fun finallyBlock => ?_
  refine .optional (expect_skips _).finds ?_
  exact make_compound rfl rfl (by simp [Data.children])

/-! ### Declarations that are kept as text -/

theorem verbatimStep_gathers {F : Findings} {previous : Option Kind} :
    Gathers text P F (verbatimStep rules previous) fun _ => F := by
  refine .ask kind_asks fun k => ?_
  extract_lets part
  have hpart (Q : Cursor → Prop) (ended : Bool) : Gathers text Q F (part ended) fun _ => F := by
    refine .ite (fun _ => .pure (.refl _)) fun _ => ?_
    split
    · exact .pure (.refl _)
    · exact .pure (.refl _)
    · exact advance_skips.finds.bind fun _ => .pure (.refl _)
    · exact (skipBalanced_skips hr.toPlaces _ _).finds.bind fun _ => .pure (.refl _)
    · exact (skipParenthesized_skips hr.toPlaces).finds.bind fun _ => .pure (.refl _)
    · exact (skipBalanced_skips hr.toPlaces _ _).finds.bind fun _ => .pure (.refl _)
    · exact (hr.toPlaces.silent rfl).finds.bind fun _ => .pure (.refl _)
    · exact advance_skips.finds.bind fun _ => .pure (.refl _)
  clear_value part
  cases previous with
  | none => exact .pureBind (hpart _ false)
  | some previous => exact .ask lineBreakBefore_asks fun _ => .pureBind (hpart _ _)

theorem verbatimStatement_gathers {k : VerbatimKind} {quiet : List NodeId} :
    Gathers text P ⟨pos, quiet, []⟩ (verbatimStatement rules k pos)
      fun id => ⟨pos, id.toList, []⟩ :=
  .bind (.loop (.refl _) fun _ => verbatimStep_gathers hr) fun _ => makeVerbatim_quiet

/-! ### Modules -/

theorem exportedDeclaration_gathers {modifiers : Array NodeId} :
    Gathers text P ⟨pos, modifiers.toList, []⟩ (exportedDeclaration rules pos modifiers)
      fun id => ⟨pos, id.toList, []⟩ := by
  refine .ask kind_asks fun k => ?_
  split
  iterate 3
    · exact .before (variableStatement_gathers hr) (.of_eq rfl)
  · exact .before (classRest_gathers hr) (.of_eq rfl)
  · exact .before (functionDeclaration_gathers hr) (.of_eq rfl)

theorem exportStatement_gathers {decorators : Array NodeId} :
    Gathers text P ⟨pos, decorators.toList, []⟩ (exportStatement rules pos decorators)
      fun id => ⟨pos, [], id.toList⟩ := by
  refine .ask (nextIs_asks _) fun isDefault => .ask declarationFollows_asks fun _ =>
    .ite (fun _ => ?_) fun _ => .ite (fun _ => ?_) fun _ => ?_
  · have hword {nodes : Array NodeId} {Q : Cursor → Prop} :
        Gathers text Q ⟨pos, nodes.toList, []⟩ tokenNode
          fun id => ⟨pos, (pushOption nodes id).toList, []⟩ :=
      (tokenNode_hushes _).after fun id => .of_eq (by simp)
    have hrest (nodes : Array NodeId) : Gathers text AnyToken ⟨pos, nodes.toList, []⟩ (do
        exportedDeclaration rules pos (← optionalAbstract nodes))
        fun id => ⟨pos, [], id.toList⟩ :=
      optionalAbstract_gathers.bind fun _ => (exportedDeclaration_gathers hr).after fun _ => .line
    refine hword.bind fun id => .ite (fun _ => ?_) fun _ => .pureBind (hrest _)
    exact hword.bind fun id => .pureBind (hrest _)
  · -- The decorators were found, but they are no parts of the statement.
    refine advance_skips.finds.bind fun _ => advance_skips.finds.bind fun _ =>
      (assignmentAllowingIn_hushes hr _).bind fun e => endStatement_skips.finds.bind fun _ => ?_
    exact make_statement e.toList [] rfl
      (fun _ h => List.mem_append_right _ h) (by simp [Data.children])
      (fun _ h => List.mem_append_right _ h) (List.nil_subset _)
  · exact (verbatimStatement_gathers hr).after fun _ => .line

/-! ### Any statement -/

theorem plainStatement_lines : Lines text P (plainStatement rules) Option.toList := by
  intro F
  refine .ask atIdentifier?_asks fun _ => ?_
  have hrest {Q : Cursor → Prop} (isLabel : Bool) : Gathers text Q F
      (if isLabel then labeledStatement rules else expressionStatement rules)
      fun id => F.lined id.toList :=
    .ite (fun _ => labeledStatement_lines hr F) fun _ => expressionStatement_lines hr F
  exact .ite (fun _ => .ask (nextIs_asks _) fun _ => hrest _) fun _ => .pureBind (hrest _)

theorem verbatimIf_gathers {k : VerbatimKind} {p : Kind → Bool} :
    Gathers text P (.opened pos) (verbatimIf rules pos k p) fun id => ⟨pos, [], id.toList⟩ := by
  refine .ask (nextOnLine_asks _) fun _ => .ite (fun _ => ?_) fun _ => plainStatement_lines hr _
  exact (verbatimStatement_gathers hr).after fun _ => .line

theorem decoratedStatement_gathers :
    Gathers text P (.opened pos) (decoratedStatement rules pos)
      fun id => ⟨pos, [], id.toList⟩ := by
  refine (decorators_hushes hr _).bind fun _ => optionalAbstract_gathers.bind fun nodes =>
    .ask (at?_asks _) fun found => .ite (fun hfound => exportStatement_gathers hr) fun _ => ?_
  exact .before ((classRest_gathers hr).after fun _ => .line) (.of_eq (by simp))

theorem statementBody_lines : Lines text P (statementBody rules) Option.toList := by
  refine .inner fun p => .ask kind_asks fun k => ?_
  have hvariables {Q : Cursor → Prop} :
      Gathers text Q (.opened p) (variableStatement rules p none) fun id => ⟨p, [], id.toList⟩ :=
    .before ((variableStatement_gathers hr).after fun _ => .line) (.of_eq rfl)
  have hfunction {Q : Cursor → Prop} :
      Gathers text Q (.opened p) (functionDeclaration rules p none)
        fun id => ⟨p, [], id.toList⟩ :=
    .before ((functionDeclaration_gathers hr).after fun _ => .line) (.of_eq rfl)
  have hclass {Q : Cursor → Prop} :
      Gathers text Q (.opened p) (classRest rules .declaration p none)
        fun id => ⟨p, [], id.toList⟩ :=
    .before ((classRest_gathers hr).after fun _ => .line) (.of_eq rfl)
  have hverbatim {Q : Cursor → Prop} {k : VerbatimKind} :
      Gathers text Q (.opened p) (verbatimStatement rules k p) fun id => ⟨p, [], id.toList⟩ :=
    (verbatimStatement_gathers hr).after fun _ => .line
  split
  · exact block_lines hr _
  · exact advance_skips.finds.bind fun _ =>
      .after (make_quiet rfl rfl (List.nil_subset _)) fun _ => .line
  · exact hvariables
  · exact .ask atLetDeclaration?_asks fun _ => .ite (fun _ => hvariables)
      fun _ => plainStatement_lines hr _
  · exact .ask (nextIs_asks _) fun _ => .ite (fun _ => hverbatim) fun _ => hvariables
  · exact hfunction
  · exact .ask (nextOnLine_asks _) fun _ => .ite (fun _ => hfunction)
      fun _ => plainStatement_lines hr _
  · exact hclass
  · refine .ask (nextOnLine_asks _) fun _ => .ite (fun _ => ?_) fun _ => plainStatement_lines hr _
    refine .bind (optionalAbstract_gathers.before (.of_eq rfl)) fun nodes => ?_
    exact .before ((classRest_gathers hr).after fun _ => .line) (.of_eq (by simp))
  · exact decoratedStatement_gathers hr
  · exact ifStatement_lines hr _
  · exact doStatement_lines hr _
  · exact whileStatement_lines hr _
  · exact forStatement_lines hr _
  · exact jumpStatement_lines _
  · exact jumpStatement_lines _
  · exact leaveStatement_lines hr _
  · exact leaveStatement_lines hr _
  · exact switchStatement_lines hr _
  · exact tryStatement_lines hr _
  · exact advance_skips.finds.bind fun _ => endStatement_skips.finds.bind fun _ =>
      .after (make_quiet rfl rfl (List.nil_subset _)) fun _ => .line
  · refine .ask (lookAhead_asks (.bind advance_skips fun _ => (atAny?_asks _).skips)) fun _ =>
      .ite (fun _ => plainStatement_lines hr _) fun _ => hverbatim
  · exact .before (exportStatement_gathers hr) (.of_eq rfl)
  · exact verbatimIf_gathers hr
  · exact verbatimIf_gathers hr
  · exact hverbatim
  · exact verbatimIf_gathers hr
  · exact verbatimIf_gathers hr
  · exact verbatimIf_gathers hr
  · exact plainStatement_lines hr _

end Rules

end Unchain.Grammar
