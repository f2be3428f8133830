import Unchain.Proofs.Placing.Operators

/-!
# Statements are placed

A statement takes up its modifiers and the parts after them. What is read and
then kept as text leaves no children: the decorators before such a declaration
are dropped, and so are those before an exported expression
(`exportStatement_builds`).
-/

namespace Unchain.Grammar

open Syntax (Data Flags IterationKind JumpKind LeaveKind NodeId NodeList VerbatimKind)
open Token (Cursor Kind)

variable {text : List Char} {rules : Rules} {P : Cursor → Prop}
  {pos : Nat} {ids : List NodeId} {outer : List (Nat × List NodeId)}

/-! ### Steps without rules -/

theorem atLetDeclaration?_asks : Asks text atLetDeclaration? fun _ _ => True :=
  lookAhead_asks (N := fun _ => False) <| .bind advance_skips fun _ => .ask kind_asks fun _ =>
    .pure id

theorem atLoopVariables?_asks : Asks text atLoopVariables? fun _ _ => True := by
  refine .next (atAny?_asks _) fun _ => .ite (fun _ => .pure fun _ => trivial) fun _ => ?_
  exact .next (at?_asks _) fun _ => .ite (fun _ => atLetDeclaration?_asks)
    fun _ => .pure fun _ => trivial

theorem iterationHere?_asks : Asks text iterationHere? fun _ _ => True := by
  refine .next kind_asks fun k => ?_
  split
  iterate 3
    · exact .pure fun _ => trivial

theorem declarationFollows_asks {isDefault : Bool} :
    Asks text (declarationFollows isDefault) fun _ _ => True := by
  have hwords {α : Type} {step : Reader α} (hstep : Skips text step fun _ => False) :
      Asks text (lookAhead do
        advance
        if isDefault then advance
        step) fun _ _ => True :=
    lookAhead_asks (.bind advance_skips fun _ => .optional advance_skips hstep)
  refine .next (hwords kind_asks.skips) fun next => ?_
  split
  iterate 5
    · exact .pure fun _ => trivial
  · refine .next (lookAhead_asks (N := fun _ => False) ?_) fun _ => .pure fun _ => trivial
    exact .bind advance_skips fun _ => .bind advance_skips fun _ => (at?_asks _).skips
  · refine hwords ?_
    exact .bind advance_skips fun _ => .ask (at?_asks _) fun _ => .ask lineBreakBefore_asks
      fun _ => .pure id
  · exact .pure fun _ => trivial

/-- The word becomes one more modifier before the declaration. -/
theorem optionalAbstract_builds {nodes : Array NodeId} :
    Builds text P ⟨.start, pos, nodes.toList, outer⟩ (optionalAbstract nodes)
      fun nodes => ⟨.start, pos, nodes.toList, outer⟩ := by
  refine .ask (at?_asks _) fun _ => .ite (fun _ => ?_) fun _ => .pure (.refl _)
  exact (tokenNode_yields _).bind fun id => .pure (.trans .start (.of_eq (by simp)))

theorem jumpStatement_yields {k : JumpKind} : Yields text P (jumpStatement k) Option.toList := by
  intro A
  refine .inner fun p => advance_skips.moves.bind fun _ => .ask canEndStatement_asks fun _ =>
    .ask atIdentifier?_asks fun _ => .either
    (B := fun label => ⟨.last, p, label.toList, (A.pos, A.ids) :: A.outer⟩)
    (fun _ => identifier_yields _) (fun _ => .pure (.refl _)) fun label => ?_
  exact endStatement_skips.keeps.bind fun _ => make_builds (.of_children rfl rfl rfl)

section Rules

variable (hr : Places text rules)
include hr

theorem statement_yields : Yields text P (rules .statement) Option.toList :=
  hr.yields .statement rfl fun _ => trivial

theorem block_yields : Yields text P (rules .block) Option.toList :=
  hr.yields .block rfl fun _ => trivial

/-! ### Lists of statements -/

theorem statementInto_builds {e : Edge} {nodes : Array NodeId} :
    Builds text P ⟨e, pos, ids ++ nodes.toList, outer⟩ (statementInto rules nodes)
      fun nodes => ⟨.last, pos, ids ++ nodes.toList, outer⟩ := by
  refine .ask tokenPos_asks fun before => (statement_yields hr _).bind fun id =>
    .ask tokenPos_asks fun now => .ask (at?_asks _) fun _ => .ite (fun _ => ?_) fun _ => ?_
  · exact errorHere_builds.bind fun _ => advance_skips.moves.bind fun _ => .pure (.of_eq (by simp))
  · exact .pure (.of_eq (by simp))

theorem statementsUntil_adds {closing : List Kind} :
    Adds text P (statementsUntil rules closing) Array.toList := by
  intro pos ids outer
  refine .loop (.of_eq (by simp)) fun nodes => .ask (atAny?_asks _) fun _ =>
    .ite (fun _ => .pure (.refl _)) fun _ => ?_
  exact (statementInto_builds hr).bind fun nodes => .pure (.refl _)

theorem blockBody_yields : Yields text P (blockBody rules) Option.toList := by
  intro A
  refine .inner fun p => (expect_skips _).moves.bind fun _ => .ask lineBreakBefore_asks fun _ =>
    .ask tokenPos_asks fun _ => (statementsUntil_adds hr _ _ _).bind fun nodes =>
    .ask tokenPos_asks fun _ => (expect_skips _).moves.bind fun _ => ?_
  exact make_builds (.of_children rfl rfl rfl)

theorem expressionStatement_yields : Yields text P (expressionStatement rules) Option.toList := by
  intro A
  refine .inner fun p => (expressionAllowingIn_yields hr _).bind fun e => ?_
  cases e with
  | none => exact .pure (.refl _)
  | some e => exact endStatement_skips.keeps.bind fun _ => make_builds (.of_children rfl rfl rfl)

theorem labeledStatement_yields : Yields text P (labeledStatement rules) Option.toList := by
  intro A
  refine .inner fun p => (identifier_yields _).bind fun label => (expect_skips _).moves.bind
    fun _ => (statement_yields hr _).bind fun statement => ?_
  exact make_builds (.of_children rfl rfl rfl)

/-! ### Variables -/

theorem variableDeclaration_yields :
    Yields text P (variableDeclaration rules) fun a => a.1.toList := by
  intro A
  refine .inner fun p => (bindingName_yields hr _).bind fun name => (accept_skips _).keeps.bind
    fun isDefinite => (declaredType_adds hr _ _ _).bind fun type => .accept ?_ ?_
  · refine (assignment_yields hr _).bind fun initializer => ?_
    exact .bind (make_builds (.of_children rfl rfl rfl)) fun id => .pure (.refl _)
  · refine .pureBind (.bind (make_builds (.of_children rfl rfl ?_)) fun id => .pure (.refl _))
    simp [Data.children]

/-- The variables are a list, so their nodes stay with the construct around them. -/
theorem variableDeclarations_yields :
    Yields text P (variableDeclarations rules) fun a => a.2.nodes := by
  intro A
  refine .ask kind_asks fun k => advance_skips.moves.bind fun _ =>
    .ask tokenPos_asks fun listPos => ?_
  refine .bind (B := fun nodes => ⟨.last, A.pos, A.ids ++ nodes.toList, A.outer⟩)
    (.loop (.of_eq (by simp)) fun nodes => ?_) fun nodes =>
      .ask lastStop_asks fun _ => .pure (.refl _)
  refine (variableDeclaration_yields hr _).bind fun (node, named) => .ite (fun _ => ?_)
    fun _ => .pure (.of_eq (by simp))
  exact .accept (.pure (.of_eq (by simp))) (.pure (.of_eq (by simp)))

theorem variableStatement_builds {e : Edge} {modifiers : Option NodeList} :
    Builds text P ⟨e, pos, Data.listNodes modifiers, outer⟩ (variableStatement rules pos modifiers)
      fun id => ⟨.last, pos, id.toList, outer⟩ := by
  refine (variableDeclarations_yields hr _).bind fun (flags, declarations) =>
    endStatement_skips.keeps.bind fun _ => ?_
  exact makeFlagged_builds (.of_children rfl rfl rfl)

/-! ### Functions -/

theorem functionDeclaration_builds {e : Edge} {modifiers : Option NodeList} :
    Builds text P ⟨e, pos, Data.listNodes modifiers, outer⟩
      (functionDeclaration rules pos modifiers) fun id => ⟨.last, pos, id.toList, outer⟩ := by
  refine (accept_skips _).keeps.bind fun isAsync => (expect_skips _).moves.bind fun _ =>
    (accept_skips _).keeps.bind fun isGenerator => .ask atIdentifier?_asks fun _ =>
    .either (B := fun name => ⟨.last, pos, Data.listNodes modifiers ++ name.toList, outer⟩)
    (fun _ => identifier_yields _) (fun _ => .pure (.of_eq (by simp))) fun name => ?_
  exact functionRest_builds hr fun _ => rfl

/-! ### Control flow -/

theorem parenthesizedCondition_yields :
    Yields text P (parenthesizedCondition rules) Option.toList := by
  intro A
  exact (expect_skips _).moves.bind fun _ => (expressionAllowingIn_yields hr _).bind fun e =>
    (expect_skips _).moves.bind fun _ => .pure (.refl _)

theorem ifStatement_yields : Yields text P (ifStatement rules) Option.toList := by
  intro A
  refine .inner fun p => advance_skips.moves.bind fun _ =>
    (parenthesizedCondition_yields hr _).bind fun condition => (statement_yields hr _).bind
    fun thenStatement => .accept ?_ ?_
  · exact (statement_yields hr _).bind fun elseStatement => make_builds (.of_children rfl rfl rfl)
  · exact .pureBind (make_builds (.of_children rfl rfl (by simp [Data.children])))

theorem doStatement_yields : Yields text P (doStatement rules) Option.toList := by
  intro A
  refine .inner fun p => advance_skips.moves.bind fun _ => (statement_yields hr _).bind
    fun statement => (expect_skips _).moves.bind fun _ => (parenthesizedCondition_yields hr _).bind
    fun condition => (accept_skips _).keeps.bind fun _ => ?_
  exact make_builds (.of_children rfl rfl (by simp [Data.children]))

theorem whileStatement_yields : Yields text P (whileStatement rules) Option.toList := by
  intro A
  refine .inner fun p => advance_skips.moves.bind fun _ =>
    (parenthesizedCondition_yields hr _).bind fun condition => (statement_yields hr _).bind
    fun statement => ?_
  exact make_builds (.of_children rfl rfl (by simp [Data.children]))

theorem loopInitializer_adds : Adds text P (loopInitializer rules) Option.toList := by
  intro pos ids outer
  refine .ask (at?_asks _) fun _ => .ite (fun _ => .pure (.of_eq (by simp))) fun _ =>
    .ask atLoopVariables?_asks fun _ => .ite (fun _ => .inner fun p => ?_) fun _ => ?_
  · refine (inContext_builds (variableDeclarations_yields hr _)).bind
      fun (flags, declarations) => ?_
    exact makeFlagged_builds (.of_children rfl rfl rfl)
  · exact inContext_builds (hr.yields .expression rfl (fun _ => trivial) _)

theorem loopPart_adds {closing : Kind} : Adds text P (loopPart rules closing) Option.toList := by
  intro pos ids outer
  refine .ask (at?_asks _) fun _ => .ite (fun _ => .pure (.of_eq (by simp))) fun _ => ?_
  exact expressionAllowingIn_yields hr _

theorem forStatement_yields : Yields text P (forStatement rules) Option.toList := by
  intro A
  refine .inner fun p => advance_skips.moves.bind fun _ => (accept_skips _).keeps.bind
    fun awaits => (expect_skips _).moves.bind fun _ => (loopInitializer_adds hr _ _ _).bind
    fun initializer => .ask iterationHere?_asks fun iteration => ?_
  cases iteration with
  | some k =>
    refine advance_skips.moves.bind fun _ => .either
      (B := fun e => ⟨.last, p, initializer.toList ++ e.toList, (A.pos, A.ids) :: A.outer⟩)
      (fun _ => assignmentAllowingIn_yields hr _) (fun _ => expressionAllowingIn_yields hr _)
      fun e => (expect_skips _).moves.bind fun _ => (statement_yields hr _).bind fun statement => ?_
    exact make_builds (.of_children rfl rfl rfl)
  | none =>
    refine (expect_skips _).moves.bind fun _ => (loopPart_adds hr _ _ _).bind fun condition =>
      (expect_skips _).moves.bind fun _ => (loopPart_adds hr _ _ _).bind fun incrementor =>
      (expect_skips _).moves.bind fun _ => (statement_yields hr _).bind fun statement => ?_
    exact make_builds (.of_children rfl rfl rfl)

theorem leaveStatement_yields {k : LeaveKind} :
    Yields text P (leaveStatement rules k) Option.toList := by
  intro A
  refine .inner fun p => advance_skips.moves.bind fun _ => .ask canEndStatement_asks fun _ =>
    .either (B := fun e => ⟨.last, p, e.toList, (A.pos, A.ids) :: A.outer⟩)
    (fun _ => .pure (.refl _)) (fun _ => expressionAllowingIn_yields hr _) fun e => ?_
  exact endStatement_skips.keeps.bind fun _ => make_builds (.of_children rfl rfl rfl)

theorem switchClause_yields : Yields text P (switchClause rules) Option.toList := by
  intro A
  refine .inner fun p => ?_
  have hrest (k : Syntax.ClauseKind) (e : Option NodeId) :
      Builds text AnyToken ⟨.last, p, e.toList, (A.pos, A.ids) :: A.outer⟩ (do
        let _ ← expect .colon
        let listPos ← tokenPos
        let nodes ← statementsUntil rules [.caseKeyword, .defaultKeyword, .closeBrace, .endOfFile]
        let listStop ← tokenPos
        make (.clause k e (listOf nodes listPos listStop false)) p)
        fun id => ⟨.last, p, id.toList, (A.pos, A.ids) :: A.outer⟩ := by
    refine (expect_skips _).moves.bind fun _ => .ask tokenPos_asks fun _ =>
      (statementsUntil_adds hr _ _ _).bind fun nodes => .ask tokenPos_asks fun _ => ?_
    exact make_builds (.of_children rfl rfl rfl)
  refine .accept ?_ ?_
  · exact (expressionAllowingIn_yields hr _).bind fun e => .pureBind (hrest _ e)
  · exact advance_skips.moves.bind fun _ => .pureBind (hrest _ none)

/-- The clauses stand in a block of their own, which starts with the brace. -/
theorem switchStatement_yields : Yields text P (switchStatement rules) Option.toList := by
  intro A
  refine .inner fun p => advance_skips.moves.bind fun _ =>
    (parenthesizedCondition_yields hr _).bind fun e => .ask tokenPos_asks fun blockPos =>
    .opened (fun c hc => hc.2) ?_
  refine (expect_skips _).moves.bind fun _ => .ask lineBreakBefore_asks fun _ =>
    .ask tokenPos_asks fun listPos => .bind (B := fun nodes => ⟨.last, blockPos, nodes.toList,
      (p, e.toList) :: (A.pos, A.ids) :: A.outer⟩) (.loop (.refl _) fun nodes => ?_)
    fun nodes => .ask tokenPos_asks fun _ => (expect_skips _).moves.bind fun _ =>
    .bind (B := fun cases => ⟨.last, p, e.toList ++ cases.toList, (A.pos, A.ids) :: A.outer⟩) ?_
    fun cases => make_builds (.of_children rfl rfl rfl)
  · refine .ask (atAny?_asks _) fun _ => .ite (fun _ => ?_) fun _ => .pure (.refl _)
    exact (switchClause_yields hr _).bind fun id => .pure (.of_eq (by simp))
  · exact (make_builds (.of_children rfl rfl rfl)).after fun _ => .merge

/-- The variable of a catch clause ends before the parenthesis. -/
theorem catchBinding_adds : Adds text P (catchBinding rules) Option.toList := by
  intro pos ids outer
  refine .accept (.inner fun p => ?_) (.pure (.of_eq (by simp)))
  refine (bindingName_yields hr _).bind fun name => (declaredType_adds hr _ _ _).bind fun type =>
    lastStop_builds.bind fun stop => (expect_skips _).keeps.bind fun _ => ?_
  exact makeBetween_builds (.of_children rfl rfl (by simp [Data.children])) fun _ _ _ _ => rfl

theorem catchClause_adds : Adds text P (catchClause rules) Option.toList := by
  intro pos ids outer
  refine .ask (at?_asks _) fun _ => .ite (fun _ => .inner fun p => ?_)
    fun _ => .pure (.of_eq (by simp))
  refine advance_skips.moves.bind fun _ => (catchBinding_adds hr _ _ _).bind fun binding =>
    (block_yields hr _).bind fun block => ?_
  exact make_builds (.of_children rfl rfl rfl)

theorem tryStatement_yields : Yields text P (tryStatement rules) Option.toList := by
  intro A
  refine .inner fun p => advance_skips.moves.bind fun _ => (block_yields hr _).bind fun block =>
    (catchClause_adds hr _ _ _).bind fun handler => .accept ?_ ?_
  · refine (block_yields hr _).bind fun finallyBlock => .ite (fun _ => ?_) fun _ =>
      make_builds (.of_children rfl rfl rfl)
    exact (expect_skips _).moves.bind fun _ => make_builds (.of_children rfl rfl rfl)
  · refine .pureBind (.ite (fun _ => ?_) fun _ => ?_)
    · exact (expect_skips _).moves.bind fun _ =>
        make_builds (.of_children rfl rfl (by simp [Data.children]))
    · exact make_builds (.of_children rfl rfl (by simp [Data.children]))

/-! ### Declarations that are kept as text -/

/-- A part that is read over is a token at least. Before the first part no token has been passed,
but there neither the text nor a block ends. -/
theorem verbatimStep_builds {e : Edge} {previous : Option Kind} (h : e = .last ∨ previous = none ∧
      ∀ c, P c → c.kind ≠ .endOfFile ∧ c.kind ≠ .closeBrace) :
    Builds text P ⟨e, pos, [], outer⟩ (verbatimStep rules previous)
      fun _ => ⟨.last, pos, [], outer⟩ := by
  refine .ask kind_asks fun k => ?_
  extract_lets part
  have hpart (Q : Cursor → Prop) (ended : Bool)
      (hdone : ended = true ∨ k = .endOfFile ∨ k = .closeBrace →
        Builds text Q ⟨e, pos, [], outer⟩ (pure (.done previous) : Reader (Turn (Option Kind)))
          fun _ => ⟨.last, pos, [], outer⟩) :
      Builds text Q ⟨e, pos, [], outer⟩ (part ended) fun _ => ⟨.last, pos, [], outer⟩ := by
    refine .ite (fun hended => hdone (.inl hended)) fun _ => ?_
    split
    · exact hdone (.inr (.inl rfl))
    · exact hdone (.inr (.inr rfl))
    · exact advance_skips.moves.bind fun _ => .pure (.refl _)
    · exact (skipBalanced_skips hr _ _).moves.bind fun _ => .pure (.refl _)
    · exact (skipParenthesized_skips hr).moves.bind fun _ => .pure (.refl _)
    · exact (skipBalanced_skips hr _ _).moves.bind fun _ => .pure (.refl _)
    · exact (hr.silent rfl).moves.bind fun _ => .pure (.refl _)
    · exact advance_skips.moves.bind fun _ => .pure (.refl _)
  clear_value part
  rcases h with rfl | ⟨rfl, h⟩
  · cases previous with
    | none => exact .pureBind (hpart _ false fun _ => .pure (.refl _))
    | some previous => exact .ask lineBreakBefore_asks fun _ => .pureBind (hpart _ _ fun _ =>
        .pure (.refl _))
  · refine .pureBind (hpart _ false fun hk => .never fun c hc => ?_)
    obtain ⟨hend, hbrace⟩ := h c hc.1
    rcases hk with hk | hk | hk
    · exact nomatch hk
    · exact hend (hc.2.trans hk)
    · exact hbrace (hc.2.trans hk)

theorem verbatimStatement_builds {k : VerbatimKind}
    (h : ∀ c, P c → c.kind ≠ .endOfFile ∧ c.kind ≠ .closeBrace) :
    Builds text P ⟨.start, pos, ids, outer⟩ (verbatimStatement rules k pos)
      fun id => ⟨.last, pos, id.toList, outer⟩ := by
  refine .before ?_ (.forget (List.nil_sublist ids))
  refine .bind (B := fun _ => ⟨.last, pos, [], outer⟩) ?_ fun _ => makeVerbatim_builds
  exact .repeating (verbatimStep_builds hr (.inr ⟨rfl, h⟩)) fun _ =>
    verbatimStep_builds hr (.inl rfl)

/-! ### Modules -/

theorem exportedDeclaration_builds {modifiers : Array NodeId} :
    Builds text P ⟨.start, pos, modifiers.toList, outer⟩ (exportedDeclaration rules pos modifiers)
      fun id => ⟨.last, pos, id.toList, outer⟩ := by
  refine .ask kind_asks fun k => ?_
  split
  iterate 3
    · exact .before (variableStatement_builds hr) (.of_eq rfl)
  · exact .before (classRest_builds hr) (.of_eq rfl)
  · exact .before (functionDeclaration_builds hr) (.of_eq rfl)

/-- An exported expression drops the decorators before it, and so does what is kept as text. -/
theorem exportStatement_builds {decorators : Array NodeId}
    (h : ∀ c, P c → c.kind = .exportKeyword) :
    Builds text P ⟨.start, pos, decorators.toList, outer⟩ (exportStatement rules pos decorators)
      fun id => ⟨.last, pos, id.toList, outer⟩ := by
  refine .ask (nextIs_asks _) fun isDefault => .ask declarationFollows_asks fun _ =>
    .ite (fun _ => ?_) fun _ => .ite (fun _ => ?_) fun _ => ?_
  · have hword {Q : Cursor → Prop} {nodes : Array NodeId} :
        Builds text Q ⟨.start, pos, nodes.toList, outer⟩ tokenNode
          fun id => ⟨.start, pos, (pushOption nodes id).toList, outer⟩ :=
      (tokenNode_yields _).after fun id => .trans .start (.of_eq (by simp))
    have hrest (nodes : Array NodeId) :
        Builds text AnyToken ⟨.start, pos, nodes.toList, outer⟩ (do
          exportedDeclaration rules pos (← optionalAbstract nodes))
          fun id => ⟨.last, pos, id.toList, outer⟩ :=
      optionalAbstract_builds.bind fun _ => exportedDeclaration_builds hr
    refine hword.bind fun id => .ite (fun _ => ?_) fun _ => .pureBind (hrest _)
    exact hword.bind fun id => .pureBind (hrest _)
  · refine .before ?_ (.forget (List.nil_sublist _))
    refine advance_skips.moves.bind fun _ => advance_skips.moves.bind fun _ =>
      (assignmentAllowingIn_yields hr _).bind fun e => endStatement_skips.keeps.bind fun _ => ?_
    exact make_builds (.of_children rfl rfl rfl)
  · exact verbatimStatement_builds hr fun c hc => by simp [h c hc.1.1]

/-! ### Any statement -/

theorem plainStatement_yields : Yields text P (plainStatement rules) Option.toList := by
  intro A
  refine .ask atIdentifier?_asks fun _ => ?_
  have hrest {Q : Cursor → Prop} (isLabel : Bool) : Builds text Q A
      (if isLabel then labeledStatement rules else expressionStatement rules)
      fun id => A.grown id.toList :=
    .ite (fun _ => labeledStatement_yields hr A) fun _ => expressionStatement_yields hr A
  exact .ite (fun _ => .ask (nextIs_asks _) fun _ => hrest _) fun _ => .pureBind (hrest _)

theorem verbatimIf_builds {k : VerbatimKind} {p : Kind → Bool}
    (h : ∀ c, P c → c.kind ≠ .endOfFile ∧ c.kind ≠ .closeBrace) :
    Builds text P ⟨.start, pos, [], outer⟩ (verbatimIf rules pos k p)
      fun id => ⟨.last, pos, id.toList, outer⟩ :=
  .ask (nextOnLine_asks _) fun _ => .ite
    (fun _ => verbatimStatement_builds hr fun c hc => h c hc.1) fun _ => plainStatement_yields hr _

theorem decoratedStatement_builds :
    Builds text P ⟨.start, pos, [], outer⟩ (decoratedStatement rules pos)
      fun id => ⟨.last, pos, id.toList, outer⟩ := by
  refine (decorators_builds hr).bind fun _ => optionalAbstract_builds.bind fun nodes =>
    .ask (at?_asks _) fun found => .ite (fun hfound => ?_) fun _ => ?_
  · exact exportStatement_builds hr fun c hc => hc.2.mp hfound
  · exact .before (classRest_builds hr (e := .start)) (.of_eq (by simp))

theorem statementBody_yields : Yields text P (statementBody rules) Option.toList := by
  intro A
  refine .inner fun p => .ask kind_asks fun k => ?_
  have hvariables {Q : Cursor → Prop} : Builds text Q (A.opened p) (variableStatement rules p none)
      fun id => (A.opened p).grown id.toList :=
    .before (variableStatement_builds hr) (.of_eq rfl)
  have hfunction {Q : Cursor → Prop} : Builds text Q (A.opened p) (functionDeclaration rules p none)
      fun id => (A.opened p).grown id.toList :=
    .before (functionDeclaration_builds hr) (.of_eq rfl)
  have hclass {Q : Cursor → Prop} : Builds text Q (A.opened p) (classRest rules .declaration p none)
      fun id => (A.opened p).grown id.toList :=
    .before (classRest_builds hr) (.of_eq rfl)
  split
  · exact block_yields hr _
  · exact advance_skips.moves.bind fun _ => make_builds (.of_children rfl rfl rfl)
  · exact hvariables
  · exact .ask atLetDeclaration?_asks fun _ => .ite (fun _ => hvariables)
      fun _ => plainStatement_yields hr _
  · exact .ask (nextIs_asks _) fun _ => .ite
      (fun _ => verbatimStatement_builds hr fun c hc => by simp [hc.1.2]) fun _ => hvariables
  · exact hfunction
  · exact .ask (nextOnLine_asks _) fun _ => .ite (fun _ => hfunction)
      fun _ => plainStatement_yields hr _
  · exact hclass
  · refine .ask (nextOnLine_asks _) fun _ => .ite (fun _ => ?_) fun _ => plainStatement_yields hr _
    exact .bind (optionalAbstract_builds.before (.of_eq rfl)) fun nodes =>
      .before (classRest_builds hr (e := .start)) (.of_eq (by simp))
  · exact decoratedStatement_builds hr
  · exact ifStatement_yields hr _
  · exact doStatement_yields hr _
  · exact whileStatement_yields hr _
  · exact forStatement_yields hr _
  · exact jumpStatement_yields _
  · exact jumpStatement_yields _
  · exact leaveStatement_yields hr _
  · exact leaveStatement_yields hr _
  · exact switchStatement_yields hr _
  · exact tryStatement_yields hr _
  · exact advance_skips.moves.bind fun _ => endStatement_skips.keeps.bind fun _ =>
      make_builds (.of_children rfl rfl rfl)
  · refine .ask (lookAhead_asks (.bind advance_skips fun _ => (atAny?_asks _).skips)) fun _ =>
      .ite (fun _ => plainStatement_yields hr _) fun _ => ?_
    exact verbatimStatement_builds hr fun c hc => by simp [hc.1.2]
  · exact .before (exportStatement_builds hr fun c hc => hc.2) (.of_eq rfl)
  · exact verbatimIf_builds hr fun c hc => by simp [hc.2]
  · exact verbatimIf_builds hr fun c hc => by simp [hc.2]
  · exact verbatimStatement_builds hr fun c hc => by simp [hc.2]
  · exact verbatimIf_builds hr fun c hc => by simp [hc.2]
  · exact verbatimIf_builds hr fun c hc => by simp [hc.2]
  · exact verbatimIf_builds hr fun c hc => by simp [hc.2]
  · exact plainStatement_yields hr _

end Rules

end Unchain.Grammar
