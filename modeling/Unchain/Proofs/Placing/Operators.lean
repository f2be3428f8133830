import Unchain.Proofs.Placing.Expressions

/-!
# Operators, arrows and assignments are placed

An operator takes up the expression before it and the one after it. The type of
`<T>x` is the one child that stands before its sibling and is asked for after
it; that the node starts with `<` tells it from `x as T`.
-/

namespace Unchain.Grammar

open Syntax (Data Flags NodeId NodeList UnaryKind)
open Token (Cursor Kind)

variable {text : List Char} {rules : Rules} {P : Cursor → Prop}
  {pos : Nat} {ids : List NodeId} {outer : List (Nat × List NodeId)}

/-- Where a token `<` starts the text goes on with that character. -/
theorem dropBytes?_of_lessThan {c : Cursor} (hc : c.OnToken text) (hk : c.kind = .lessThan) :
    ∃ rest, Text.dropBytes? c.start text = some ('<' :: rest) := by
  obtain ⟨before, htext, hstart⟩ := hc.starts
  obtain ⟨rest, hrest⟩ := hc.prefix_of_spelling? (w := "<") (by rw [hk]; rfl)
  refine ⟨rest, ?_⟩
  rw [hstart, htext, Text.dropBytes?_append, ← hrest]
  rfl

section Rules

variable (hr : Places text rules)
include hr

theorem binary_yields {level : Nat} : Yields text P (rules (.binary level)) Option.toList :=
  hr.yields (.binary level) rfl fun _ => trivial

/-! ### Operators -/

theorem wordOperator_yields {k : UnaryKind} :
    Yields text P (wordOperator rules k) Option.toList := by
  intro A
  refine .inner fun p => advance_skips.moves.bind fun _ => (unary_yields hr _).bind fun e => ?_
  exact make_builds (.of_children rfl rfl rfl)

theorem suffixedExpression_yields : Yields text P (suffixedExpression rules) Option.toList := by
  intro A
  refine .inner fun p => (leftHand_yields hr _).bind fun e => .ask (atAny?_asks _) fun _ =>
    .ask lineBreakBefore_asks fun _ => .ite (fun _ => ?_) fun _ => .pure (.refl _)
  refine .ask kind_asks fun operator => advance_skips.moves.bind fun _ => ?_
  exact make_builds (.of_children rfl rfl rfl)

omit hr in
/-- The node of a type keeps its text. -/
theorem isText_of_run_typeNode {s s' : State} {type : Option NodeId}
    (hrun : (typeNode rules).run s = some (type, s')) :
    ∃ id, type = some id ∧ s'.tree.IsText id := by
  obtain ⟨_, s₁, -, hrun⟩ := of_run_bind hrun
  obtain ⟨_, s₂, -, hrun⟩ := of_run_bind hrun
  obtain ⟨_, s₃, -, hrun⟩ := of_run_bind hrun
  obtain ⟨_, s₄, -, hrun⟩ := of_run_bind hrun
  obtain ⟨rfl, rfl⟩ := Prod.mk.inj (Option.some.inj hrun)
  exact ⟨_, rfl, _, _, Syntax.Tree.data?_add_self ..⟩

/-- The type comes before the expression that it is the type of. Its node is known to keep its text
in the tree that the expression was read into, so the steps are followed one by one. -/
theorem typeAssertion_yields (h : ∀ c, P c → c.kind = .lessThan) :
    Yields text P (typeAssertion rules) Option.toList := by
  intro A
  refine .inner fun p s id s' hs hrun => ?_
  obtain ⟨_, s₁, hadvance, hrun⟩ := of_run_bind hrun
  obtain ⟨type, s₂, htype, hrun⟩ := of_run_bind hrun
  obtain ⟨_, s₃, hexpect, hrun⟩ := of_run_bind hrun
  obtain ⟨e, s₄, he, hmake⟩ := of_run_bind hrun
  obtain ⟨type, rfl, hknown⟩ := isText_of_run_typeNode htype
  let typed : Stage := (A.opened p).moved.grown [type]
  obtain ⟨moves₁, holds₁⟩ :=
    advance_skips.moves (P := AnyToken) (A := A.opened p) s _ s₁ hs hadvance
  obtain ⟨moves₂, holds₂⟩ :=
    typeNode_yields hr (P := AnyToken) (A.opened p).moved s₁ _ s₂ moves₁.fits htype
  obtain ⟨moves₃, holds₃⟩ :=
    (expect_skips _).moves (P := AnyToken) (A := typed) s₂ _ s₃ moves₂.fits hexpect
  obtain ⟨moves₄, holds₄⟩ := unary_yields hr (P := AnyToken) typed s₃ e s₄ moves₃.fits he
  have hrest := moves₁.trans (moves₂.trans (moves₃.trans moves₄))
  refine ⟨hrest.trans (make_moves moves₄.fits hmake), fun hclean hp hA => ?_⟩
  -- There was no error before the node was made, so all stages are reached.
  have hclean₄ := (make_moves moves₄.fits hmake).errors_eq_empty hclean
  have hclean₃ := moves₄.errors_eq_empty hclean₄
  have hclean₂ := moves₃.errors_eq_empty hclean₃
  have hstage := holds₄ hclean₄ trivial <| holds₃ hclean₃ trivial <| holds₂ hclean₂ trivial <|
    holds₁ (moves₂.errors_eq_empty hclean₂) trivial hA
  obtain ⟨rest, hopen⟩ := dropBytes?_of_lessThan hs.onToken (h _ hp.1)
  rw [hp.2] at hopen
  refine hstage.make moves₄.fits
    ⟨fun id => ?_, ⟨_, .inr ⟨e, type, rest, rfl, ?_, hopen, rfl⟩, .refl _⟩, nofun⟩ hmake
  · simp [Data.parts, Data.children, typed, or_comm]
  · exact hknown.grows (moves₃.trans moves₄).grows

theorem unaryBody_yields : Yields text P (unaryBody rules) Option.toList := by
  intro A
  refine .inner fun p => .ask kind_asks fun k => ?_
  split
  iterate 6
    · refine .ask kind_asks fun operator => advance_skips.moves.bind fun _ =>
        (unary_yields hr _).bind fun operand => ?_
      exact make_builds (.of_children rfl rfl rfl)
  iterate 3
    · exact wordOperator_yields hr _
  · exact .ask get_asks fun s => .ite (fun _ => wordOperator_yields hr _)
      fun _ => suffixedExpression_yields hr _
  · exact typeAssertion_yields hr (fun c hc => hc.2) _
  · exact suffixedExpression_yields hr _

/-- One operator takes up the expression before it. -/
theorem binaryStep_builds {level : Nat} {left : Option NodeId} :
    Builds text P ⟨.last, pos, left.toList, outer⟩ (binaryStep rules level pos left)
      fun turn => ⟨.last, pos, turn.value.toList, outer⟩ := by
  refine joinGreater_skips.keeps.bind fun _ => .ask kind_asks fun operator =>
    .ite (fun _ => .pure (.refl _)) fun _ => .ask get_asks fun s =>
    .ite (fun _ => .pure (.refl _)) fun _ => .ite (fun _ => .pure (.refl _)) fun _ =>
    .ite (fun _ => .ask lineBreakBefore_asks fun _ => .ite (fun _ => .pure (.refl _)) fun _ => ?_)
    fun _ => ?_
  · refine advance_skips.moves.bind fun _ => (typeNode_yields hr _).bind fun type => ?_
    exact .bind (make_builds (.of_children rfl rfl rfl)) fun id => .pure (.refl _)
  · refine advance_skips.moves.bind fun _ => (binary_yields hr _).bind fun right => ?_
    exact .bind (make_builds (.of_children rfl rfl rfl)) fun id => .pure (.refl _)

theorem binaryBody_yields {level : Nat} : Yields text P (binaryBody rules level) Option.toList := by
  intro A
  refine .inner fun p => (unary_yields hr _).bind fun left => ?_
  exact .loop (.refl _) fun _ => binaryStep_builds hr

/-! ### Arrows -/

theorem skipArrowHead_skips : Skips text (skipArrowHead rules) fun _ => False := by
  refine .ask errorCount_asks fun _ => .ask (at?_asks _) fun _ =>
    .optional (skipBalanced_skips hr _ _) <| .ask errorCount_asks fun _ =>
    .ite (fun _ => .pure id) fun _ => .ask (at?_asks _) fun _ => .ite (fun _ => .pure id)
    fun _ => .bind (skipParenthesized_skips hr) fun _ => .ask errorCount_asks fun _ =>
    .bind (accept_skips _) fun _ => .optional (skipType_skips hr) <| .ask errorCount_asks fun _ =>
    .ite (fun _ => .pure id) fun _ => ?_
  exact .ask (at?_asks _) fun _ => .ask lineBreakBefore_asks fun _ => .pure id

theorem atAsyncArrow?_asks : Asks text (atAsyncArrow? rules) fun _ _ => True :=
  lookAhead_asks (N := fun _ => False) <| .bind advance_skips fun _ => .ask lineBreakBefore_asks
    fun _ => .ite (fun _ => .pure id) fun _ => .ask kind_asks fun _ =>
    .ite (fun _ => .bind advance_skips fun _ => (at?_asks _).skips) fun _ => skipArrowHead_skips hr

theorem arrowHere?_asks : Asks text (arrowHere? rules) fun _ _ => True := by
  have found (b : Bool) :
      Asks text (pure (if b = true then some false else none)) fun _ (_ : Option Bool) => True :=
    .pure fun _ => trivial
  refine .next kind_asks fun k => ?_
  split
  · refine .next (atAsyncArrow?_asks hr) fun _ => .ite (fun _ => .pure fun _ => trivial) fun _ => ?_
    exact .next (nextIs_asks _) fun _ => .ite (fun _ => .pure fun _ => trivial)
      fun _ => .pure fun _ => trivial
  · exact .next (lookAhead_asks (skipArrowHead_skips hr)) found
  · exact .next (lookAhead_asks (skipArrowHead_skips hr)) found
  · refine .next atIdentifier?_asks fun _ => .ite (fun _ => ?_) fun _ => .pure fun _ => trivial
    exact .next (nextOnLine_asks _) found

theorem arrowRest_builds {isAsync parenthesized : Bool} {types : Option NodeId}
    {parameters : NodeList} :
    Builds text P ⟨.last, pos, types.toList ++ parameters.nodes, outer⟩
      (arrowRest rules isAsync pos types parenthesized parameters)
      fun id => ⟨.last, pos, id.toList, outer⟩ := by
  refine (resultType_adds hr _ _ _).bind fun type => (expect_skips _).moves.bind fun _ =>
    .ask (at?_asks _) fun _ => .either (B := fun body => ⟨.last, pos,
      types.toList ++ parameters.nodes ++ type.toList ++ body.toList, outer⟩)
    (fun _ => functionBlock_yields hr _) (fun _ => ?_) fun body => ?_
  · exact inContext_builds (assignment_yields hr _)
  · exact makeFlagged_builds (.of_children rfl rfl (by simp [Data.children, Data.listNodes]))

theorem arrowFunction_yields {isAsync : Bool} :
    Yields text P (arrowFunction rules isAsync) Option.toList := by
  intro A
  refine .inner fun p => ?_
  have hrest : Builds text AnyToken (A.opened p) (do
      let types ← typeParameters rules
      let parenthesized ← at? .openParen
      let parameters ← do
        if parenthesized then inFunction isAsync false (parameterList rules) else arrowParameter
      arrowRest rules isAsync p types parenthesized parameters)
      fun id => (A.opened p).grown id.toList := by
    refine (typeParameters_starts hr).bind fun types => .ask (at?_asks _) fun _ => .either
      (B := fun parameters => ⟨.last, p, types.toList ++ parameters.nodes,
        (A.pos, A.ids) :: A.outer⟩) (fun _ => ?_) (fun _ => arrowParameter_yields _) fun _ => ?_
    · exact inContext_builds (parameterList_yields hr _)
    · exact arrowRest_builds hr
  refine .ite (fun _ => ?_) fun _ => hrest.on fun _ _ => trivial
  exact advance_skips.keeps.bind fun _ => hrest

/-! ### Assignments and commas -/

theorem yieldExpression_yields : Yields text P (yieldExpression rules) Option.toList := by
  intro A
  refine .inner fun p => advance_skips.moves.bind fun _ => .ask lineBreakBefore_asks fun _ =>
    .either (B := fun _ => ⟨.last, p, [], (A.pos, A.ids) :: A.outer⟩) (fun _ => .pure (.refl _))
    (fun _ => (accept_skips _).keeps) fun _ => .ask lineBreakBefore_asks fun _ =>
    .ask kind_asks fun k => .either (B := fun e => ⟨.last, p, e.toList, (A.pos, A.ids) :: A.outer⟩)
    (fun _ => assignment_yields hr _) (fun _ => .pure (.refl _)) fun e => ?_
  exact make_builds (.of_children rfl rfl rfl)

/-- An assignment or a condition takes up the expression before it. -/
theorem assignmentRest_builds {left : Option NodeId} :
    Builds text P ⟨.last, pos, left.toList, outer⟩ (assignmentRest rules pos left)
      fun id => ⟨.last, pos, id.toList, outer⟩ := by
  refine joinGreater_skips.keeps.bind fun _ => .ask kind_asks fun operator =>
    .ite (fun _ => ?_) fun _ => .ite (fun _ => ?_) fun _ => .pure (.refl _)
  · refine advance_skips.moves.bind fun _ => (assignment_yields hr _).bind fun right => ?_
    exact make_builds (.of_children rfl rfl rfl)
  · refine advance_skips.moves.bind fun _ => (assignmentAllowingIn_yields hr _).bind
      fun whenTrue => (expect_skips _).moves.bind fun _ => (assignment_yields hr _).bind
      fun whenFalse => ?_
    exact make_builds (.of_children rfl rfl rfl)

theorem assignmentBody_yields : Yields text P (assignmentBody rules) Option.toList := by
  intro A
  refine .ask (at?_asks _) fun _ => .ask get_asks fun s =>
    .ite (fun _ => yieldExpression_yields hr A) fun _ => .ask (arrowHere?_asks hr) fun arrow => ?_
  cases arrow with
  | some isAsync => exact arrowFunction_yields hr A
  | none => exact .inner fun p => (binary_yields hr _).bind fun left => assignmentRest_builds hr

/-- A comma takes up the expression before it. -/
theorem commaStep_builds {left : Option NodeId} :
    Builds text P ⟨.last, pos, left.toList, outer⟩ (commaStep rules pos left)
      fun turn => ⟨.last, pos, turn.value.toList, outer⟩ := by
  refine .accept ((assignment_yields hr _).bind fun right => ?_) (.pure (.refl _))
  cases right with
  | none => exact errorHere_builds.bind fun _ => .pure (.of_eq (by simp [Stage.moved]))
  | some right => exact .bind (make_builds (.of_children rfl rfl rfl)) fun id => .pure (.refl _)

theorem expressionBody_yields : Yields text P (expressionBody rules) Option.toList := by
  intro A
  refine .inner fun p => (assignment_yields hr _).bind fun left => ?_
  exact .loop (.refl _) fun _ => commaStep_builds hr

end Rules

end Unchain.Grammar
