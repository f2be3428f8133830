import Unchain.Proofs.Scoping.Functions

/-!
# Expressions are quiet

No statement stands below an expression but in a function or a class. An
expression that goes on after its first part takes up the expression so far, which
was found quiet before (`memberStep_gathers`, `binaryStep_gathers`). That `new`
before a point is a name and starts before that point makes the one step here that
needs to know its token.
-/

namespace Unchain.Grammar

open Syntax (AccessKind Data Flags FunctionKind NodeId NodeList UnaryKind)
open Token (Cursor Kind)

variable {text : List Char} {rules : Rules} {P : Cursor → Prop} {pos : Nat}

/-! ### Steps without rules -/

theorem memberModifiers_gathers {F : Findings} {nodes : Array NodeId} :
    Gathers text P (F.hushed nodes.toList) (memberModifiers nodes)
      fun nodes => F.hushed nodes.toList := by
  refine .loop (.refl _) fun nodes => .ask atMemberModifier?_asks fun _ => .ite (fun _ => ?_)
    fun _ => .pure (.refl _)
  exact (tokenNode_hushes _).bind fun id => .pure (.of_eq (by simp))

theorem nameOrNothing_hushes : Hushes text P nameOrNothing Option.toList := by
  intro F
  refine .ask atIdentifier?_names fun found => .ite (fun h => ?_) fun _ => ?_
  · exact nameNode_hushes (fun c hc => hc.2 h) F
  · exact (errorHere_skips _).finds.bind fun _ => .pure (.of_eq (by simp))

theorem arrowParameter_hushes : Hushes text P arrowParameter NodeList.nodes := by
  refine .inner fun p => (identifier_hushes _).bind fun name => .ask lastStop_asks fun stop => ?_
  refine .bind (makeBetween_quiet rfl rfl ?_) fun id => .pure (.refl _)
  simp [Data.children, Data.listNodes]

section Rules

variable (hr : Scopes text rules)
include hr

/-! ### Lists -/

theorem unary_hushes : Hushes text P (rules .unary) Option.toList :=
  hr.hush .unary rfl rfl fun _ => trivial

theorem leftHand_hushes : Hushes text P (rules .leftHand) Option.toList :=
  hr.hush .leftHand rfl rfl fun _ => trivial

theorem binary_hushes {level : Nat} : Hushes text P (rules (.binary level)) Option.toList :=
  hr.hush (.binary level) rfl rfl fun _ => trivial

theorem spread_hushes {k : UnaryKind} : Hushes text P (spread rules k) Option.toList := by
  refine .inner fun p => advance_skips.finds.bind fun _ =>
    (assignmentAllowingIn_hushes hr _).bind fun e => ?_
  exact make_quiet rfl rfl (List.Subset.refl _)

theorem listElement_hushes : Hushes text P (listElement rules) Option.toList := by
  intro F
  exact .ask (at?_asks _) fun _ => .ite (fun _ => spread_hushes hr F)
    fun _ => assignmentAllowingIn_hushes hr F

theorem argumentList_hushes : Hushes text P (argumentList rules) NodeList.nodes := by
  intro F
  refine .ask tokenPos_asks fun listPos => (expect_skips _).finds.bind fun _ => ?_
  refine .bind (G := fun list => F.hushed list.1.toList)
    (.loop (.of_eq (by simp)) fun (nodes, comma) => ?_) fun (nodes, comma) =>
    (expect_skips _).finds.bind fun _ => .ask lastStop_asks fun _ => .pure (.refl _)
  refine .ask (atAny?_asks _) fun _ => .ite (fun _ => .pure (.refl _)) fun _ =>
    (listElement_hushes hr _).bind fun argument => ?_
  cases argument with
  | none => exact .pure (.of_eq (by simp))
  | some argument =>
    refine (accept_skips _).finds.bind fun more => ?_
    cases more <;> exact .pure (.of_eq (by simp))

theorem arrayLiteral_hushes : Hushes text P (arrayLiteral rules) Option.toList := by
  refine .inner fun p => advance_skips.finds.bind fun _ => .ask lineBreakBefore_asks fun _ =>
    .ask tokenPos_asks fun listPos => ?_
  refine .bind (G := fun list => ⟨p, list.1.toList, []⟩)
    (.loop (.refl _) fun (nodes, comma) => ?_) fun (nodes, comma) => .ask tokenPos_asks fun _ =>
    (expect_skips _).finds.bind fun _ => make_quiet rfl rfl (List.Subset.refl _)
  refine .ask (atAny?_asks _) fun _ => .ite (fun _ => .pure (.refl _)) fun _ =>
    .ask (at?_asks _) fun _ => .ite (fun _ => ?_) fun _ =>
    (listElement_hushes hr _).bind fun element => ?_
  · exact (hole_hushes _).bind fun id => .pure (.of_eq (by simp))
  cases element with
  | none => exact .pure (.of_eq (by simp))
  | some element =>
    refine (accept_skips _).finds.bind fun more => ?_
    cases more <;> exact .pure (.of_eq (by simp))

theorem objectMemberRest_gathers {name : Option NodeId} :
    Gathers text P ⟨pos, name.toList, []⟩ (objectMemberRest rules pos name)
      fun id => ⟨pos, id.toList, []⟩ := by
  refine (accept_skips _).finds.bind fun _ => .ite (fun _ => ?_) fun _ => ?_
  · exact (assignmentAllowingIn_hushes hr _).bind fun value =>
      make_quiet rfl rfl (List.Subset.refl _)
  · exact (optionalValue_hushes hr _).bind fun value => make_quiet rfl rfl (List.Subset.refl _)

theorem objectMember_hushes : Hushes text P (objectMember rules) Option.toList := by
  refine .inner fun p => .ask (at?_asks _) fun _ => .ite (fun _ => ?_) fun _ =>
    acceptMethodAsync_skips.finds.bind fun isAsync => (accept_skips _).finds.bind
    fun isGenerator => ?_
  · exact (spread_hushes hr _).after fun _ => .of_eq rfl
  extract_lets member
  have hmember (Q : Cursor → Prop) (accessor : Option FunctionKind) :
      Gathers text Q (.opened p) (member accessor) fun id => ⟨p, id.toList, []⟩ := by
    cases accessor with
    | some k =>
      refine advance_skips.finds.bind fun _ => (propertyName_hushes hr _).bind fun name => ?_
      exact methodRest_gathers hr
    | none =>
      refine (propertyName_hushes hr _).bind fun name => .ask (atAny?_asks _) fun _ =>
        .ite (fun _ => ?_) fun _ => objectMemberRest_gathers hr
      exact .before (methodRest_gathers hr) (.of_eq rfl)
  clear_value member
  refine .ite (fun _ => .pureBind (hmember _ none)) fun _ => ?_
  exact .ask accessorHere?_asks fun accessor => hmember _ accessor

theorem objectElement_hushes : Hushes text P (objectElement rules) fun a => a.1.toList := by
  intro F
  exact (objectMember_hushes hr F).bind fun member => (accept_skips _).finds.bind fun _ =>
    .pure (.refl _)

theorem objectLiteral_hushes : Hushes text P (objectLiteral rules) Option.toList := by
  refine .inner fun p => advance_skips.finds.bind fun _ => .ask lineBreakBefore_asks fun _ =>
    .ask tokenPos_asks fun listPos => ?_
  refine .bind (G := fun list => ⟨p, list.1.toList, []⟩)
    (.loop (.refl _) fun (nodes, comma) => ?_) fun (nodes, comma) => .ask tokenPos_asks fun _ =>
    (expect_skips _).finds.bind fun _ => make_quiet rfl rfl (List.Subset.refl _)
  refine .ask (atAny?_asks _) fun _ => .ite (fun _ => .pure (.refl _)) fun _ =>
    .ask tokenPos_asks fun before => (objectElement_hushes hr _).bind fun (member, comma) =>
    .ask tokenPos_asks fun now => .ite (fun _ => ?_) fun _ => ?_
  · exact advance_skips.finds.bind fun _ => .pure (.of_eq (by simp))
  · cases comma <;> exact .pure (.of_eq (by simp))

/-! ### Templates -/

theorem templateSpan_hushes :
    Hushes text P (templateSpan rules) fun span => (span.map Prod.fst).toList := by
  refine .inner fun p => (expressionAllowingIn_hushes hr _).bind fun e => .ask (at?_asks _)
    fun _ => .ite (fun _ => ?_) fun _ => ?_
  · refine (rescan_skips Token.Scanner.rescans_rescanTemplate).finds.bind fun _ =>
      .ask (at?_asks _) fun last => (literal_hushes _).bind fun tail => ?_
    refine .bind (make_quiet rfl rfl (List.Subset.refl _)) fun id => .pure (.of_eq ?_)
    cases id <;> rfl
  · -- The substitution is dropped.
    refine (expect_skips _).finds.bind fun _ => .pure (.forget ?_ (List.nil_sublist _) rfl)
    exact List.nil_subset _

theorem templateLiteral_hushes : Hushes text P (templateLiteral rules) Option.toList := by
  intro F
  refine .ask (at?_asks _) fun _ => .ite (fun _ => literal_hushes F) fun _ =>
    Hushes.inner (fun p => ?_) F
  refine (literal_hushes _).bind fun head => .ask tokenPos_asks fun listPos => ?_
  refine .bind (G := fun spans => ⟨p, head.toList ++ spans.toList, []⟩)
    (.loop (.of_eq (by simp)) fun spans => ?_) fun spans => .ask lastStop_asks fun _ =>
    make_quiet rfl rfl (List.Subset.refl _)
  refine (templateSpan_hushes hr _).bind fun span => ?_
  rcases span with - | ⟨span, last⟩
  · exact .pure (.of_eq (by simp))
  · cases last <;> exact .pure (.of_eq (by simp))

/-! ### Functions and classes -/

theorem functionExpression_gathers {isAsync : Bool} :
    Gathers text P (.opened pos) (functionExpression rules pos isAsync)
      fun id => ⟨pos, id.toList, []⟩ := by
  unfold functionExpression inFunction
  refine (expect_skips _).finds.bind fun _ => (accept_skips _).finds.bind fun isGenerator =>
    .ask atIdentifier?_asks fun _ => .ite (fun _ => ?_) fun _ => .pureBind ?_
  · refine (inContext_gathers (identifier_hushes _)).bind fun name => ?_
    exact .before (functionRest_gathers hr) (.of_eq rfl)
  · exact .before (functionRest_gathers hr) (.of_eq rfl)

theorem heritage_hushes : Hushes text P (heritage rules) Option.toList := by
  intro F
  refine .ask (atAny?_asks _) fun found => .ite (fun h => Hushes.inner (fun p => ?_) F) fun _ =>
    .pure (.of_eq (by simp))
  refine .bind (G := fun _ => .opened p) (.loop (.refl _) fun _ => ?_) fun _ => makeVerbatim_quiet
  refine .ask kind_asks fun k => ?_
  split
  · exact .pure (.refl _)
  · exact .pure (.refl _)
  · exact (skipParenthesized_skips hr.toPlaces).finds.bind fun _ => .pure (.refl _)
  · exact (skipBalanced_skips hr.toPlaces _ _).finds.bind fun _ => .pure (.refl _)
  · exact advance_skips.finds.bind fun _ => .pure (.refl _)

theorem decorator_hushes : Hushes text P (decorator rules) Option.toList := by
  refine .inner fun p => advance_skips.finds.bind fun _ => (leftHand_hushes hr _).bind fun _ => ?_
  exact makeVerbatim_quiet

theorem decorators_hushes : Hushes text P (decorators rules) Array.toList := by
  intro F
  refine .loop (.of_eq (by simp)) fun nodes => .ask (at?_asks _) fun _ => .ite (fun _ => ?_)
    fun _ => .pure (.refl _)
  exact (decorator_hushes hr _).bind fun id => .pure (.of_eq (by simp))

section Member

variable {modifiers : Option NodeList}

theorem propertyRest_gathers {name : Option NodeId} :
    Gathers text P ⟨pos, Data.listNodes modifiers ++ name.toList, []⟩
      (propertyRest rules pos modifiers name) fun id => ⟨pos, id.toList, []⟩ := by
  unfold propertyRest inFunction
  refine (accept_skips _).finds.bind fun isOptional => (accept_skips _).finds.bind
    fun isDefinite => (declaredType_hushes hr _).bind fun type => (accept_skips _).finds.bind
    fun _ => .ite (fun _ => ?_) fun _ => .pureBind (endStatement_skips.finds.bind fun _ => ?_)
  · refine (inContext_gathers (assignment_hushes hr _)).bind fun value => ?_
    exact endStatement_skips.finds.bind fun _ => make_quiet rfl rfl (List.Subset.refl _)
  · exact make_quiet rfl rfl (by simp [Data.children])

theorem namedMember_gathers :
    Gathers text P ⟨pos, Data.listNodes modifiers, []⟩ (namedMember rules pos modifiers)
      fun id => ⟨pos, id.toList, []⟩ := by
  refine acceptMethodAsync_skips.finds.bind fun isAsync => (accept_skips _).finds.bind
    fun isGenerator => ?_
  extract_lets plain named member
  have hnamed (Q : Cursor → Prop) (isConstructor : Bool) :
      Gathers text Q ⟨pos, Data.listNodes modifiers, []⟩ (named isConstructor)
        fun id => ⟨pos, id.toList, []⟩ := by
    refine .ite (fun _ => (memberName_hushes _).bind fun name => functionRest_gathers hr)
      fun _ => (propertyName_hushes hr _).bind fun name => .ask atOptionalMethod?_asks fun _ =>
      .ask (atAny?_asks _) fun _ => .ite (fun _ => ?_) fun _ => propertyRest_gathers hr
    exact methodRest_gathers hr
  clear_value named
  have hmember (Q : Cursor → Prop) (accessor : Option FunctionKind) :
      Gathers text Q ⟨pos, Data.listNodes modifiers, []⟩ (member accessor)
        fun id => ⟨pos, id.toList, []⟩ := by
    cases accessor with
    | some k =>
      refine advance_skips.finds.bind fun _ => (propertyName_hushes hr _).bind fun name => ?_
      exact methodRest_gathers hr
    | none =>
      refine .ask (at?_asks _) fun _ => .ite (fun _ => .ask (nextIs_asks _) (hnamed _)) fun _ => ?_
      exact .pureBind (hnamed _ false)
  clear_value member
  refine .ite (fun _ => ?_) fun _ => .pureBind (hmember _ none)
  exact .ask accessorHere?_asks fun accessor => hmember _ accessor

end Member

theorem classMember_hushes : Hushes text P (classMember rules) Option.toList := by
  refine .inner fun p => .ask (at?_asks _) fun _ => .ite (fun _ => ?_) fun _ =>
    (decorators_hushes hr _).bind fun decorators => .ask (at?_asks _) fun _ => ?_
  · exact advance_skips.finds.bind fun _ => make_quiet rfl rfl (List.nil_subset _)
  have hrest (Q : Cursor → Prop) (isStaticBlock : Bool) :
      Gathers text Q ⟨p, decorators.toList, []⟩ (do
        if isStaticBlock then
          advance
          skipBalanced rules .openBrace .closeBrace
          makeVerbatim .type p
        else
          let modifiers := modifierList (← memberModifiers decorators)
          if ← atIndexSignature? then
            skipBalanced rules .openBracket .closeBracket
            let _ ← declaredType rules
            endStatement
            makeVerbatim .type p
          else namedMember rules p modifiers)
        fun id => ⟨p, id.toList, []⟩ := by
    refine .ite (fun _ => ?_) fun _ => .bind (G := fun nodes => ⟨p, nodes.toList, []⟩) ?_
      fun nodes => .ask atIndexSignature?_asks fun _ => .ite (fun _ => ?_) fun _ => ?_
    · exact advance_skips.finds.bind fun _ => (skipBalanced_skips hr.toPlaces _ _).finds.bind
        fun _ => makeVerbatim_quiet
    · exact memberModifiers_gathers (F := .opened p)
    · exact (skipBalanced_skips hr.toPlaces _ _).finds.bind fun _ =>
        (declaredType_hushes hr _).bind fun _ => endStatement_skips.finds.bind fun _ =>
        makeVerbatim_quiet
    · exact .before (namedMember_gathers hr) (.of_eq (by simp))
  exact .ite (fun _ => .ask (nextIs_asks _) (hrest _)) fun _ => .pureBind (hrest _ false)

theorem classMembers_hushes : Hushes text P (classMembers rules) Array.toList := by
  intro F
  refine .loop (.of_eq (by simp)) fun nodes => .ask (atAny?_asks _) fun _ =>
    .ite (fun _ => .pure (.refl _)) fun _ => .ask tokenPos_asks fun before =>
    (classMember_hushes hr _).bind fun id => .ask tokenPos_asks fun now => .ite (fun _ => ?_)
    fun _ => .pure (.of_eq (by simp))
  exact (errorHere_skips _).finds.bind fun _ => advance_skips.finds.bind fun _ =>
    .pure (.of_eq (by simp))

theorem classRest_gathers {k : Syntax.ClassKind} {modifiers : Option NodeList} :
    Gathers text P ⟨pos, Data.listNodes modifiers, []⟩ (classRest rules k pos modifiers)
      fun id => ⟨pos, id.toList, []⟩ := by
  refine (expect_skips _).finds.bind fun _ => .ask atIdentifier?_asks fun _ => .ask (at?_asks _)
    fun _ => .either (G := fun name => ⟨pos, Data.listNodes modifiers ++ name.toList, []⟩)
    (fun _ => identifier_hushes _) (fun _ => .pure (.of_eq (by simp))) fun name => ?_
  refine (typeParameters_hushes hr _).bind fun types => (heritage_hushes hr _).bind
    fun heritage => .ask tokenPos_asks fun _ => (expect_skips _).finds.bind fun _ =>
    (classMembers_hushes hr _).bind fun nodes => .ask tokenStop_asks fun _ =>
    (expect_skips _).finds.bind fun _ => ?_
  exact make_quiet rfl rfl (List.Subset.refl _)

/-! ### Primary expressions -/

theorem parenthesizedExpression_hushes :
    Hushes text P (parenthesizedExpression rules) Option.toList := by
  refine .inner fun p => advance_skips.finds.bind fun _ =>
    (expressionAllowingIn_hushes hr _).bind fun e => (expect_skips _).finds.bind fun _ => ?_
  exact make_quiet rfl rfl (List.Subset.refl _)

theorem primaryExpression_hushes : Hushes text P (primaryExpression rules) Option.toList := by
  refine .inner fun p => .ask kind_asks fun k => ?_
  split
  all_goals try exact tokenNode_hushes _
  all_goals try exact literal_hushes _
  all_goals try exact templateLiteral_hushes hr _
  · exact (rescan_skips Token.Scanner.rescans_rescanSlash).finds.bind fun _ => literal_hushes _
  · exact (rescan_skips Token.Scanner.rescans_rescanSlash).finds.bind fun _ => literal_hushes _
  · exact parenthesizedExpression_hushes hr _
  · exact arrayLiteral_hushes hr _
  · exact objectLiteral_hushes hr _
  · exact functionExpression_gathers hr
  · refine .ask (nextOnLine_asks _) fun _ => .ite (fun _ => ?_) fun _ => nameOrNothing_hushes _
    exact advance_skips.finds.bind fun _ => functionExpression_gathers hr
  · exact .before (classRest_gathers hr) (.of_eq rfl)
  · refine .advance (fun c hc => ⟨?_, hc.1.2⟩) (.ask lastStop_asks fun _ =>
      makeBetween_name rfl fun _ hc => hc.1)
    rw [hc.2]
    exact nofun
  · exact memberName_hushes _
  · exact nameOrNothing_hushes _

/-! ### Accesses and calls -/

section Steps

variable {e : Option NodeId} {allowCalls : Bool}

omit hr in
theorem access_gathers {k : AccessKind} {member : Option NodeId} {questionDot : Bool} :
    Gathers text P ⟨pos, e.toList ++ member.toList, []⟩ (access k pos e member questionDot)
      fun id => ⟨pos, id.toList, []⟩ :=
  makeFlagged_quiet rfl rfl (List.Subset.refl _)

theorem call_gathers {types : Option NodeId} {flags : Flags} :
    Gathers text P ⟨pos, e.toList ++ types.toList, []⟩ (call rules pos e types flags)
      fun id => ⟨pos, id.toList, []⟩ :=
  (argumentList_hushes hr _).bind fun _ => makeFlagged_quiet rfl rfl (List.Subset.refl _)

/-- A call without type arguments. -/
theorem plainCall_gathers {flags : Flags} :
    Gathers text P ⟨pos, e.toList, []⟩ (call rules pos e none flags)
      fun id => ⟨pos, id.toList, []⟩ :=
  .before (call_gathers hr) (.of_eq (by simp))

theorem elementAccess_gathers {questionDot : Bool} :
    Gathers text P ⟨pos, e.toList, []⟩ (elementAccess rules pos e questionDot)
      fun id => ⟨pos, id.toList, []⟩ :=
  (expressionAllowingIn_hushes hr _).bind fun _ => (expect_skips _).finds.bind fun _ =>
    access_gathers

/-- One access or call takes up the expression before it. -/
theorem memberStep_gathers :
    Gathers text P ⟨pos, e.toList, []⟩ (memberStep rules pos allowCalls e)
      fun turn => ⟨pos, turn.value.toList, []⟩ := by
  have htemplate (Q : Cursor → Prop) : Gathers text Q ⟨pos, e.toList, []⟩ (do
      let text ← templateLiteral rules
      return .again (← make (.taggedTemplate e text) pos) : Reader (Turn (Option NodeId)))
      fun turn => ⟨pos, turn.value.toList, []⟩ :=
    (templateLiteral_hushes hr _).bind fun template =>
      (make_quiet rfl rfl (List.Subset.refl _)).bind fun id => .pure (.refl _)
  refine .ask kind_asks fun k => ?_
  split
  · exact advance_skips.finds.bind fun _ => (memberName_hushes _).bind fun name =>
      access_gathers.bind fun id => .pure (.refl _)
  · refine advance_skips.finds.bind fun _ => .ask (at?_asks _) fun _ => .ite (fun _ => ?_)
      fun _ => (accept_skips _).finds.bind fun _ => .ite (fun _ => ?_) fun _ => ?_
    · exact (plainCall_gathers hr).bind fun id => .pure (.refl _)
    · exact (elementAccess_gathers hr).bind fun id => .pure (.refl _)
    · exact (memberName_hushes _).bind fun name => access_gathers.bind fun id => .pure (.refl _)
  · exact advance_skips.finds.bind fun _ => (elementAccess_gathers hr).bind fun id =>
      .pure (.refl _)
  · refine .ask lineBreakBefore_asks fun _ => .ite (fun _ => .pure (.refl _)) fun _ => ?_
    exact advance_skips.finds.bind fun _ =>
      (make_quiet rfl rfl (List.Subset.refl _)).bind fun id => .pure (.refl _)
  · exact htemplate _
  · exact htemplate _
  · refine .ask (atCallTypeArguments?_asks hr.toPlaces) fun _ => .ite (fun _ => ?_)
      fun _ => .pure (.refl _)
    refine (typeArguments_hushes hr _).bind fun types => .ask (at?_asks _) fun _ =>
      .ite (fun _ => ?_) fun _ => ?_
    · exact (call_gathers hr).bind fun id => .pure (.refl _)
    · -- Type arguments before a template are dropped.
      exact .pure (.forget (List.subset_append_left _ _) (List.Sublist.refl _) rfl)
  · refine .ite (fun _ => ?_) fun _ => .pure (.refl _)
    exact (plainCall_gathers hr).bind fun id => .pure (.refl _)
  · exact .pure (.refl _)

theorem memberRest_gathers :
    Gathers text P ⟨pos, e.toList, []⟩ (memberRest rules pos allowCalls e)
      fun id => ⟨pos, id.toList, []⟩ :=
  .loop (.refl _) fun _ => memberStep_gathers hr

end Steps

theorem construction_hushes :
    Hushes text (fun c => c.kind = .newKeyword) (rules .construction) Option.toList :=
  hr.hushes rfl rfl

theorem constructionOrPrimary_hushes :
    Hushes text P (constructionOrPrimary rules) Option.toList := by
  intro F
  refine .ask (at?_asks _) fun _ => .ite (fun h => ?_) fun _ => primaryExpression_hushes hr F
  exact (construction_hushes hr F).on fun c hc => hc.2.mp h

theorem leftHandBody_hushes : Hushes text P (leftHandBody rules) Option.toList :=
  .inner fun _ => (constructionOrPrimary_hushes hr _).bind fun _ => memberRest_gathers hr

/-- The callee is read from its own position on, and belongs to the construction then. -/
theorem constructionBody_hushes (h : ∀ c, P c → c.kind = .newKeyword) :
    Hushes text P (constructionBody rules) Option.toList := by
  refine .inner fun p => .advance (p := p) (fun c hc => ⟨?_, hc.2⟩) <| .ask tokenPos_asks
    fun calleePos => .ask (at?_asks _) fun _ => .ite (fun _ => ?_) fun _ => ?_
  · rw [h c hc.1]
    exact nofun
  · refine .bind (makeBetween_name rfl fun c hc => hc.1.1) fun word => memberRest_gathers hr
  · refine .regroup (.bind (.hushing (g := Option.toList) (fun c hc => hc.1.2) ?_)
      fun callee => ?_)
    · exact (constructionOrPrimary_hushes hr _).bind fun callee => memberRest_gathers hr
    refine .ask (atCallTypeArguments?_asks hr.toPlaces) fun _ => .either (G := fun types =>
      ⟨p, callee.toList ++ types.toList, []⟩)
      (fun _ => typeArguments_hushes hr _) (fun _ => .pure (.of_eq (by simp))) fun types => ?_
    refine .ask (at?_asks _) fun _ => .either (G := fun list => ⟨p,
      callee.toList ++ types.toList ++ Data.listNodes list, []⟩)
      (fun _ => ?_) (fun _ => .pure (.of_eq (by simp [Data.listNodes]))) fun list => ?_
    · rw [map_eq_pure_bind]
      exact (argumentList_hushes hr _).bind fun list => .pure (.refl _)
    · exact make_quiet rfl rfl (List.Subset.refl _)

/-! ### Operators -/

theorem wordOperator_hushes {k : UnaryKind} :
    Hushes text P (wordOperator rules k) Option.toList := by
  refine .inner fun p => advance_skips.finds.bind fun _ => (unary_hushes hr _).bind fun e => ?_
  exact make_quiet rfl rfl (List.Subset.refl _)

theorem suffixedExpression_hushes : Hushes text P (suffixedExpression rules) Option.toList := by
  refine .inner fun p => (leftHand_hushes hr _).bind fun e => .ask (atAny?_asks _) fun _ =>
    .ask lineBreakBefore_asks fun _ => .ite (fun _ => ?_) fun _ => .pure (.refl _)
  refine .ask kind_asks fun operator => advance_skips.finds.bind fun _ => ?_
  exact make_quiet rfl rfl (List.Subset.refl _)

/-- The type comes first in the text and last among the parts; both are quiet. -/
theorem typeAssertion_hushes : Hushes text P (typeAssertion rules) Option.toList := by
  refine .inner fun p => advance_skips.finds.bind fun _ => (typeNode_hushes hr _).bind
    fun type => (expect_skips _).finds.bind fun _ => (unary_hushes hr _).bind fun e => ?_
  exact make_quiet rfl rfl fun id hid => List.mem_append.mpr (List.mem_append.mp hid).symm

theorem unaryBody_hushes : Hushes text P (unaryBody rules) Option.toList := by
  refine .inner fun p => .ask kind_asks fun k => ?_
  split
  iterate 6
    · refine .ask kind_asks fun operator => advance_skips.finds.bind fun _ =>
        (unary_hushes hr _).bind fun operand => ?_
      exact make_quiet rfl rfl (List.Subset.refl _)
  iterate 3
    · exact wordOperator_hushes hr _
  · exact .ask get_asks fun s => .ite (fun _ => wordOperator_hushes hr _)
      fun _ => suffixedExpression_hushes hr _
  · exact typeAssertion_hushes hr _
  · exact suffixedExpression_hushes hr _

/-- One operator takes up the expression before it. -/
theorem binaryStep_gathers {level : Nat} {left : Option NodeId} :
    Gathers text P ⟨pos, left.toList, []⟩ (binaryStep rules level pos left)
      fun turn => ⟨pos, turn.value.toList, []⟩ := by
  refine joinGreater_skips.finds.bind fun _ => .ask kind_asks fun operator =>
    .ite (fun _ => .pure (.refl _)) fun _ => .ask get_asks fun s =>
    .ite (fun _ => .pure (.refl _)) fun _ => .ite (fun _ => .pure (.refl _)) fun _ =>
    .ite (fun _ => .ask lineBreakBefore_asks fun _ => .ite (fun _ => .pure (.refl _)) fun _ => ?_)
    fun _ => ?_
  · refine advance_skips.finds.bind fun _ => (typeNode_hushes hr _).bind fun type => ?_
    exact .bind (make_quiet rfl rfl (List.Subset.refl _)) fun id => .pure (.refl _)
  · refine advance_skips.finds.bind fun _ => (binary_hushes hr _).bind fun right => ?_
    exact .bind (make_quiet rfl rfl (List.Subset.refl _)) fun id => .pure (.refl _)

theorem binaryBody_hushes {level : Nat} :
    Hushes text P (binaryBody rules level) Option.toList := by
  refine .inner fun p => (unary_hushes hr _).bind fun left => ?_
  exact .loop (.refl _) fun _ => binaryStep_gathers hr

/-! ### Arrows -/

theorem arrowRest_gathers {isAsync parenthesized : Bool} {types : Option NodeId}
    {parameters : NodeList} :
    Gathers text P ⟨pos, types.toList ++ parameters.nodes, []⟩
      (arrowRest rules isAsync pos types parenthesized parameters)
      fun id => ⟨pos, id.toList, []⟩ := by
  unfold arrowRest inFunction
  refine (resultType_hushes hr _).bind fun type => (expect_skips _).finds.bind fun _ =>
    .ask (at?_asks _) fun _ => .ite (fun _ => ?_) fun _ => ?_
  · refine (functionBlock_lines hr _).bind fun body => .ask lastStop_asks fun _ => ?_
    exact makeBetween_function (List.Subset.refl _) fun _ h => List.mem_append_right _ h
  · refine (inContext_gathers (assignment_hushes hr _)).bind fun body => .ask lastStop_asks
      fun _ => ?_
    exact makeBetween_function (fun _ h => List.mem_append_left _ h) fun _ h =>
      List.mem_append_left _ (List.mem_append_right _ h)

theorem arrowFunction_hushes {isAsync : Bool} :
    Hushes text P (arrowFunction rules isAsync) Option.toList := by
  refine .inner fun p => ?_
  unfold inFunction
  refine .optional advance_skips.finds <| (typeParameters_hushes hr _).bind fun types =>
    .ask (at?_asks _) fun _ => .either (G := fun parameters => ⟨p, types.toList ++
    parameters.nodes, []⟩) (fun _ => ?_) (fun _ => arrowParameter_hushes _) fun _ => ?_
  · exact inContext_gathers (parameterList_hushes hr _)
  · exact arrowRest_gathers hr

/-! ### Assignments and commas -/

theorem yieldExpression_hushes : Hushes text P (yieldExpression rules) Option.toList := by
  refine .inner fun p => advance_skips.finds.bind fun _ => .ask lineBreakBefore_asks fun _ =>
    .either (G := fun _ => .opened p) (fun _ => .pure (.refl _))
    (fun _ => (accept_skips _).finds) fun _ => .ask lineBreakBefore_asks fun _ =>
    .ask kind_asks fun k => .either (G := fun e => ⟨p, e.toList, []⟩)
    (fun _ => assignment_hushes hr _) (fun _ => .pure (.refl _)) fun e => ?_
  exact make_quiet rfl rfl (List.Subset.refl _)

/-- An assignment or a condition takes up the expression before it. -/
theorem assignmentRest_gathers {left : Option NodeId} :
    Gathers text P ⟨pos, left.toList, []⟩ (assignmentRest rules pos left)
      fun id => ⟨pos, id.toList, []⟩ := by
  refine joinGreater_skips.finds.bind fun _ => .ask kind_asks fun operator =>
    .ite (fun _ => ?_) fun _ => .ite (fun _ => ?_) fun _ => .pure (.refl _)
  · refine advance_skips.finds.bind fun _ => (assignment_hushes hr _).bind fun right => ?_
    exact make_quiet rfl rfl (List.Subset.refl _)
  · refine advance_skips.finds.bind fun _ => (assignmentAllowingIn_hushes hr _).bind
      fun whenTrue => (expect_skips _).finds.bind fun _ => (assignment_hushes hr _).bind
      fun whenFalse => ?_
    exact make_quiet rfl rfl (List.Subset.refl _)

theorem assignmentBody_hushes : Hushes text P (assignmentBody rules) Option.toList := by
  intro F
  refine .ask (at?_asks _) fun _ => .ask get_asks fun s =>
    .ite (fun _ => yieldExpression_hushes hr F) fun _ => .ask (arrowHere?_asks hr.toPlaces)
    fun arrow => ?_
  cases arrow with
  | some isAsync => exact arrowFunction_hushes hr F
  | none =>
    refine Hushes.inner (fun p => ?_) F
    exact (binary_hushes hr _).bind fun left => assignmentRest_gathers hr

/-- A comma takes up the expression before it. -/
theorem commaStep_gathers {left : Option NodeId} :
    Gathers text P ⟨pos, left.toList, []⟩ (commaStep rules pos left)
      fun turn => ⟨pos, turn.value.toList, []⟩ := by
  refine (accept_skips _).finds.bind fun _ => .ite (fun _ =>
    (assignment_hushes hr _).bind fun right => ?_) fun _ => .pure (.refl _)
  cases right with
  | none => exact (errorHere_skips _).finds.bind fun _ => .pure (.of_eq (by simp))
  | some right => exact .bind (make_quiet rfl rfl (List.Subset.refl _)) fun id => .pure (.refl _)

theorem expressionBody_hushes : Hushes text P (expressionBody rules) Option.toList := by
  refine .inner fun p => (assignment_hushes hr _).bind fun left => ?_
  exact .loop (.refl _) fun _ => commaStep_gathers hr

end Rules

end Unchain.Grammar
