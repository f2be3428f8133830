import Unchain.Proofs.Placing.Functions

/-!
# Expressions are placed

An expression that goes on after its first part keeps the position where that
part starts: each access, call or operator takes up the expression so far
(`memberStep_builds`, `binaryStep_builds`). The word `new` before a point has
the place of its letters, and the type of `<T>x` comes before its expression.
-/

namespace Unchain.Grammar

open Syntax (AccessKind Data Flags FunctionKind NodeId NodeList UnaryKind)
open Token (Cursor Kind)

variable {text : List Char} {rules : Rules} {P : Cursor → Prop}
  {pos : Nat} {ids : List NodeId} {outer : List (Nat × List NodeId)}

/-! ### Steps without rules -/

theorem joinGreater_skips : Skips text joinGreater fun _ => False :=
  .ask (at?_asks _) fun _ =>
    .ite (fun _ => rescan_skips Token.Scanner.rescans_rescanGreater) fun _ => .pure id

theorem atMemberModifier?_asks : Asks text atMemberModifier? fun _ _ => True := by
  refine .next (atAny?_asks _) fun word => ?_
  extract_lets modifies
  have hmodifies (b : Bool) : Asks text (modifies b) fun _ _ => True :=
    .ite (fun _ => nextOnLine_asks _) fun _ => .pure fun _ => trivial
  clear_value modifies
  refine .ite (fun _ => ?_) fun _ => .next (atWord?_asks _) hmodifies
  exact .next (.pure (I := fun _ _ => True) fun _ => trivial) hmodifies

theorem atIndexSignature?_asks : Asks text atIndexSignature? fun _ _ => True := by
  refine .next (at?_asks _) fun _ => .ite (fun _ => ?_) fun _ => .pure fun _ => trivial
  refine lookAhead_asks (N := fun _ => False) ?_
  exact .bind advance_skips fun _ => .ask kind_asks fun _ => .ite
    (fun _ => .bind advance_skips fun _ => (at?_asks _).skips) fun _ => .pure id

theorem atOptionalMethod?_asks : Asks text atOptionalMethod? fun _ _ => True := by
  refine .next (at?_asks _) fun _ => .ite (fun _ => ?_) fun _ => .pure fun _ => trivial
  refine lookAhead_asks (N := fun _ => False) ?_
  exact .bind advance_skips fun _ => (atAny?_asks _).skips

theorem memberModifiers_builds {nodes : Array NodeId} :
    Builds text P ⟨.start, pos, nodes.toList, outer⟩ (memberModifiers nodes)
      fun nodes => ⟨.start, pos, nodes.toList, outer⟩ := by
  refine .loop (.refl _) fun nodes => .ask atMemberModifier?_asks fun _ => .ite (fun _ => ?_)
    fun _ => .pure (.refl _)
  exact (tokenNode_yields _).bind fun id => .pure (.trans .start (.of_eq (by simp)))

theorem nameOrNothing_yields : Yields text P nameOrNothing Option.toList := by
  intro A
  refine .ask atIdentifier?_asks fun _ => .ite (fun _ => nameNode_yields A) fun _ => ?_
  exact errorHere_builds.bind fun _ => .pure (.of_eq (by simp))

theorem arrowParameter_yields : Yields text P arrowParameter NodeList.nodes := by
  intro A
  have hlasts (name : Option NodeId) := lasts_isNamed (.parameter { name })
  refine .inner fun p => (identifier_yields _).bindWhere isNamed_of_run_identifier fun name =>
    .after (hlasts name) lastStop_builds fun stop => ?_
  refine .bind (L := fun _ _ => True) (makeBetween_buildsWhere (fun t ht => ⟨fun id => ?_,
    ⟨_, .inl rfl, ?_⟩, ht⟩) fun _ _ _ _ => rfl) (fun _ _ _ _ => trivial) fun id => ?_
  · simp [Data.parts, Data.children, Data.listNodes]
  · simp [Data.children, Data.listNodes]
  · exact Builds.given (.pure (.refl _))

section Rules

variable (hr : Places text rules)
include hr

/-! ### Lists -/

theorem assignment_yields : Yields text P (rules .assignment) Option.toList :=
  hr.yields .assignment rfl fun _ => trivial

theorem unary_yields : Yields text P (rules .unary) Option.toList :=
  hr.yields .unary rfl fun _ => trivial

theorem leftHand_yields : Yields text P (rules .leftHand) Option.toList :=
  hr.yields .leftHand rfl fun _ => trivial

theorem spread_yields {k : UnaryKind} : Yields text P (spread rules k) Option.toList := by
  intro A
  refine .inner fun p => advance_skips.moves.bind fun _ =>
    (assignmentAllowingIn_yields hr _).bind fun e => ?_
  exact make_builds (.of_children rfl rfl rfl)

theorem listElement_yields : Yields text P (listElement rules) Option.toList := by
  intro A
  exact .ask (at?_asks _) fun _ => .ite (fun _ => spread_yields hr A)
    fun _ => assignmentAllowingIn_yields hr A

theorem argumentList_yields : Yields text P (argumentList rules) NodeList.nodes := by
  intro A
  refine .ask tokenPos_asks fun listPos => (expect_skips _).moves.bind fun _ => ?_
  refine .bind (B := fun list => ⟨.last, A.pos, A.ids ++ list.1.toList, A.outer⟩)
    (.loop (.of_eq (by simp)) fun (nodes, comma) => ?_) fun (nodes, comma) =>
    (expect_skips _).moves.bind fun _ => .ask lastStop_asks fun _ => .pure (.refl _)
  refine .ask (atAny?_asks _) fun _ => .ite (fun _ => .pure (.refl _)) fun _ =>
    (listElement_yields hr _).bind fun argument => ?_
  cases argument with
  | none => exact .pure (.of_eq (by simp))
  | some argument => exact .accept (.pure (.of_eq (by simp))) (.pure (.of_eq (by simp)))

theorem arrayLiteral_yields : Yields text P (arrayLiteral rules) Option.toList := by
  intro A
  refine .inner fun p => advance_skips.moves.bind fun _ => .ask lineBreakBefore_asks fun _ =>
    .ask tokenPos_asks fun listPos => ?_
  refine .bind (B := fun list => ⟨.last, p, list.1.toList, (A.pos, A.ids) :: A.outer⟩)
    (.loop (.refl _) fun (nodes, comma) => ?_) fun (nodes, comma) => .ask tokenPos_asks fun _ =>
    (expect_skips _).moves.bind fun _ => make_builds (.of_children rfl rfl rfl)
  refine .ask (atAny?_asks _) fun _ => .ite (fun _ => .pure (.refl _)) fun _ =>
    .ask (at?_asks _) fun _ => .ite (fun _ => ?_) fun _ =>
    (listElement_yields hr _).bind fun element => ?_
  · exact (hole_yields _).bind fun id => .pure (.of_eq (by simp))
  cases element with
  | none => exact .pure (.of_eq (by simp))
  | some element => exact .accept (.pure (.of_eq (by simp))) (.pure (.of_eq (by simp)))

theorem objectMemberRest_builds {name : Option NodeId} :
    Builds text P ⟨.last, pos, name.toList, outer⟩ (objectMemberRest rules pos name)
      fun id => ⟨.last, pos, id.toList, outer⟩ := by
  refine .accept ?_ ?_
  · exact (assignmentAllowingIn_yields hr _).bind fun value =>
      make_builds (.of_children rfl rfl rfl)
  · exact (optionalValue_adds hr _ _ _).bind fun value => make_builds (.of_children rfl rfl rfl)

theorem objectMember_yields : Yields text P (objectMember rules) Option.toList := by
  intro A
  refine .inner fun p => .ask (at?_asks _) fun _ => .ite (fun _ => spread_yields hr _) fun _ =>
    acceptMethodAsync_skips.keeps.bind fun isAsync => (accept_skips _).keeps.bind
    fun isGenerator => ?_
  extract_lets member
  have hmember (Q : Cursor → Prop) (accessor : Option FunctionKind)
      (hkind : ∀ k parts, accessor = some k → (Data.function k parts).ownName? = none) :
      Builds text Q (A.opened p) (member accessor) fun id => (A.opened p).grown id.toList := by
    cases accessor with
    | some k =>
      refine advance_skips.keeps.bind fun _ => (propertyName_yields hr _).bind fun name => ?_
      exact methodRest_builds hr fun parts => hkind k parts rfl
    | none =>
      refine (propertyName_yields hr _).bind fun name => .ask (atAny?_asks _) fun _ =>
        .ite (fun _ => ?_) fun _ => objectMemberRest_builds hr
      exact .before (methodRest_builds hr fun _ => rfl) (.of_eq rfl)
  clear_value member
  refine .ite (fun _ => .pureBind (hmember _ none nofun)) fun _ => ?_
  exact .askKnown accessorHere?_asks fun accessor ⟨_, hkind⟩ => hmember _ accessor hkind

theorem objectElement_yields : Yields text P (objectElement rules) fun a => a.1.toList := by
  intro A
  exact (objectMember_yields hr A).bind fun member => (accept_skips _).keeps.bind fun _ =>
    .pure (.refl _)

theorem objectLiteral_yields : Yields text P (objectLiteral rules) Option.toList := by
  intro A
  refine .inner fun p => advance_skips.moves.bind fun _ => .ask lineBreakBefore_asks fun _ =>
    .ask tokenPos_asks fun listPos => ?_
  refine .bind (B := fun list => ⟨.last, p, list.1.toList, (A.pos, A.ids) :: A.outer⟩)
    (.loop (.refl _) fun (nodes, comma) => ?_) fun (nodes, comma) => .ask tokenPos_asks fun _ =>
    (expect_skips _).moves.bind fun _ => make_builds (.of_children rfl rfl rfl)
  refine .ask (atAny?_asks _) fun _ => .ite (fun _ => .pure (.refl _)) fun _ =>
    .ask tokenPos_asks fun before => (objectElement_yields hr _).bind fun (member, comma) =>
    .ask tokenPos_asks fun now => .ite (fun _ => ?_) fun _ => ?_
  · exact advance_skips.moves.bind fun _ => .pure (.of_eq (by simp))
  · cases comma <;> exact .pure (.of_eq (by simp))

/-! ### Templates -/

theorem templateSpan_yields :
    Yields text P (templateSpan rules) fun span => (span.map Prod.fst).toList := by
  intro A
  refine .inner fun p => (expressionAllowingIn_yields hr _).bind fun e => .ask (at?_asks _)
    fun _ => .ite (fun _ => ?_) fun _ => ?_
  · refine (rescan_skips Token.Scanner.rescans_rescanTemplate).keeps.bind fun _ =>
      .ask (at?_asks _) fun last => (literal_yields _).bind fun tail => ?_
    refine .bind (make_builds (.of_children rfl rfl rfl)) fun id => .pure (.of_eq ?_)
    cases id <;> rfl
  · -- The substitution is dropped, but then a brace is missing.
    refine (expect_skips _).moves.bind fun _ => .pure (.forget ?_)
    exact List.nil_sublist _

theorem templateLiteral_yields : Yields text P (templateLiteral rules) Option.toList := by
  intro A
  refine .ask (at?_asks _) fun _ => .ite (fun _ => literal_yields A) fun _ => .inner fun p =>
    (literal_yields _).bind fun head => .ask tokenPos_asks fun listPos => ?_
  refine .bind (B := fun spans => ⟨.last, p, head.toList ++ spans.toList,
    (A.pos, A.ids) :: A.outer⟩) (.loop (.of_eq (by simp)) fun spans => ?_) fun spans => ?_
  · refine (templateSpan_yields hr _).bind fun span => ?_
    rcases span with - | ⟨span, last⟩
    · exact .pure (.of_eq (by simp))
    · cases last <;> exact .pure (.of_eq (by simp))
  · exact .ask lastStop_asks fun _ => make_builds (.of_children rfl rfl rfl)

/-! ### Functions and classes -/

/-- A function that is an expression is called by a name if it has one. -/
theorem functionExpression_builds {e : Edge} {isAsync : Bool} :
    Builds text P ⟨e, pos, [], outer⟩ (functionExpression rules pos isAsync)
      fun id => ⟨.last, pos, id.toList, outer⟩ := by
  have hrest (Q : Cursor → Prop) (isGenerator : Bool) (name : Option NodeId) :
      BuildsWhere (MayBeCalled .expression name) text Q ⟨.last, pos, name.toList, outer⟩
        (functionRest rules .expression pos none isAsync isGenerator name)
        fun id => ⟨.last, pos, id.toList, outer⟩ := functionRest_buildsWhere hr
  refine (expect_skips _).moves.bind fun _ => (accept_skips _).keeps.bind fun isGenerator =>
    .ask atIdentifier?_asks fun _ => .ite (fun _ => ?_) fun _ => .pureBind ?_
  · exact (inContext_builds (identifier_yields _)).bindWhere
      (fun _ hrun => mayBeCalled_of_run_identifier hrun) (hrest _ isGenerator)
  · exact (hrest _ isGenerator none).builds mayBeCalled_none

/-- What a class extends starts with a word, so it is not empty. -/
theorem heritage_adds : Adds text P (heritage rules) Option.toList := by
  intro pos ids outer
  refine .ask (atAny?_asks _) fun found => .ite (fun h => .inner fun p => ?_) fun _ =>
    .pure (.of_eq (by simp))
  refine .bind (B := fun _ => ⟨.last, p, [], (pos, ids) :: outer⟩) (.repeating ?_ fun _ => ?_)
    fun _ => makeVerbatim_builds
  · refine .ask kind_asks fun k => ?_
    split
    · exact .never fun c hc => by simp_all
    · exact .never fun c hc => by simp_all
    · exact (skipParenthesized_skips hr).moves.bind fun _ => .pure (.refl _)
    · exact (skipBalanced_skips hr _ _).moves.bind fun _ => .pure (.refl _)
    · exact advance_skips.moves.bind fun _ => .pure (.refl _)
  · refine .ask kind_asks fun k => ?_
    split
    · exact .pure (.refl _)
    · exact .pure (.refl _)
    · exact (skipParenthesized_skips hr).moves.bind fun _ => .pure (.refl _)
    · exact (skipBalanced_skips hr _ _).moves.bind fun _ => .pure (.refl _)
    · exact advance_skips.moves.bind fun _ => .pure (.refl _)

theorem decorator_yields : Yields text P (decorator rules) Option.toList := by
  intro A
  refine .inner fun p => advance_skips.moves.bind fun _ => (leftHand_yields hr _).bind fun _ => ?_
  exact makeVerbatim_builds

theorem decorators_builds :
    Builds text P ⟨.start, pos, [], outer⟩ (decorators rules)
      fun nodes => ⟨.start, pos, nodes.toList, outer⟩ := by
  refine .loop (.refl _) fun nodes => .ask (at?_asks _) fun _ => .ite (fun _ => ?_)
    fun _ => .pure (.refl _)
  exact (decorator_yields hr _).bind fun id => .pure (.trans .start (.of_eq (by simp)))

section Member

variable {modifiers : Option NodeList}

theorem propertyRest_builds {name : Option NodeId} :
    Builds text P ⟨.last, pos, Data.listNodes modifiers ++ name.toList, outer⟩
      (propertyRest rules pos modifiers name) fun id => ⟨.last, pos, id.toList, outer⟩ := by
  refine (accept_skips _).keeps.bind fun isOptional => (accept_skips _).keeps.bind fun isDefinite =>
    (declaredType_adds hr _ _ _).bind fun type => .accept ?_ ?_
  · refine (inContext_builds (assignment_yields hr _)).bind fun value => ?_
    exact endStatement_skips.keeps.bind fun _ => make_builds (.of_children rfl rfl rfl)
  · refine .pureBind (endStatement_skips.keeps.bind fun _ => ?_)
    exact make_builds (.of_children rfl rfl (by simp [Data.children]))

theorem namedMember_builds :
    Builds text P ⟨.start, pos, Data.listNodes modifiers, outer⟩ (namedMember rules pos modifiers)
      fun id => ⟨.last, pos, id.toList, outer⟩ := by
  refine acceptMethodAsync_skips.keeps.bind fun isAsync => (accept_skips _).keeps.bind
    fun isGenerator => ?_
  extract_lets plain named member
  have hnamed (Q : Cursor → Prop) (isConstructor : Bool) :
      Builds text Q ⟨.start, pos, Data.listNodes modifiers, outer⟩ (named isConstructor)
        fun id => ⟨.last, pos, id.toList, outer⟩ := by
    refine .ite (fun _ => (memberName_yields _).bind fun name =>
      functionRest_builds hr fun _ => rfl) fun _ =>
      (propertyName_yields hr _).bind fun name => .ask atOptionalMethod?_asks fun _ =>
      .ask (atAny?_asks _) fun _ => .ite (fun _ => ?_) fun _ => propertyRest_builds hr
    exact methodRest_builds hr fun _ => rfl
  clear_value named
  have hmember (Q : Cursor → Prop) (accessor : Option FunctionKind)
      (hkind : ∀ k parts, accessor = some k → (Data.function k parts).ownName? = none) :
      Builds text Q ⟨.start, pos, Data.listNodes modifiers, outer⟩ (member accessor)
        fun id => ⟨.last, pos, id.toList, outer⟩ := by
    cases accessor with
    | some k =>
      refine advance_skips.keeps.bind fun _ => (propertyName_yields hr _).bind fun name => ?_
      exact methodRest_builds hr fun parts => hkind k parts rfl
    | none =>
      refine .ask (at?_asks _) fun _ => .ite (fun _ => .ask (nextIs_asks _) (hnamed _)) fun _ => ?_
      exact .pureBind (hnamed _ false)
  clear_value member
  refine .ite (fun _ => ?_) fun _ => .pureBind (hmember _ none nofun)
  exact .askKnown accessorHere?_asks fun accessor ⟨_, hkind⟩ => hmember _ accessor hkind

end Member

theorem classMember_yields : Yields text P (classMember rules) Option.toList := by
  intro A
  refine .inner fun p => .ask (at?_asks _) fun _ => .ite (fun _ => ?_) fun _ =>
    (decorators_builds hr).bind fun decorators => .ask (at?_asks _) fun _ => ?_
  · exact advance_skips.moves.bind fun _ => make_builds (.of_children rfl rfl rfl)
  have hrest (Q : Cursor → Prop) (isStaticBlock : Bool) :
      Builds text Q ⟨.start, p, decorators.toList, (A.pos, A.ids) :: A.outer⟩ (do
        if isStaticBlock then
          advance
          skipBalanced rules .openBrace .closeBrace
          makeVerbatim .type p
        else
          let modifiers := modifierList (← memberModifiers decorators)
          if ← atIndexSignature? then
            skipBalanced rules .openBracket .closeBracket
            let _ ← declaredType rules
            endStatement
            makeVerbatim .type p
          else namedMember rules p modifiers)
        fun id => ⟨.last, p, id.toList, (A.pos, A.ids) :: A.outer⟩ := by
    refine .ite (fun _ => ?_) fun _ => memberModifiers_builds.bind fun nodes =>
      .ask atIndexSignature?_asks fun _ => .ite (fun _ => ?_) fun _ => ?_
    · exact advance_skips.moves.bind fun _ => (skipBalanced_skips hr _ _).moves.bind fun _ =>
        makeVerbatim_builds
    · exact (skipBalanced_skips hr _ _).moves.bind fun _ => (declaredType_adds hr _ _ _).bind
        fun _ => endStatement_skips.keeps.bind fun _ => makeVerbatim_builds
    · exact .before (namedMember_builds hr) (.of_eq (by simp))
  exact .ite (fun _ => .ask (nextIs_asks _) (hrest _)) fun _ => .pureBind (hrest _ false)

theorem classMembers_adds : Adds text P (classMembers rules) Array.toList := by
  intro pos ids outer
  refine .loop (.of_eq (by simp)) fun nodes => .ask (atAny?_asks _) fun _ =>
    .ite (fun _ => .pure (.refl _)) fun _ => .ask tokenPos_asks fun before =>
    (classMember_yields hr _).bind fun id => .ask tokenPos_asks fun now => .ite (fun _ => ?_)
    fun _ => .pure (.of_eq (by simp))
  exact errorHere_builds.bind fun _ => advance_skips.moves.bind fun _ =>
    .pure (.of_eq (by simp))

theorem classRest_builds {e : Edge} {k : Syntax.ClassKind} {modifiers : Option NodeList} :
    Builds text P ⟨e, pos, Data.listNodes modifiers, outer⟩ (classRest rules k pos modifiers)
      fun id => ⟨.last, pos, id.toList, outer⟩ := by
  refine (expect_skips _).moves.bind fun _ => .ask atIdentifier?_asks fun _ => .ask (at?_asks _)
    fun _ => .either (B := fun name => ⟨.last, pos, Data.listNodes modifiers ++ name.toList, outer⟩)
    (fun _ => identifier_yields _) (fun _ => .pure (.of_eq (by simp))) fun name => ?_
  refine (typeParameters_adds hr _ _ _).bind fun types => (heritage_adds hr _ _ _).bind
    fun heritage => .ask tokenPos_asks fun _ => (expect_skips _).moves.bind fun _ =>
    (classMembers_adds hr _ _ _).bind fun nodes => .ask tokenStop_asks fun _ =>
    (expect_skips _).moves.bind fun _ => ?_
  exact make_builds (.of_children rfl rfl rfl)

/-! ### Primary expressions -/

theorem parenthesizedExpression_yields :
    Yields text P (parenthesizedExpression rules) Option.toList := by
  intro A
  refine .inner fun p => advance_skips.moves.bind fun _ =>
    (expressionAllowingIn_yields hr _).bind fun e => (expect_skips _).moves.bind fun _ => ?_
  exact make_builds (.of_children rfl rfl rfl)

theorem primaryExpression_yields : Yields text P (primaryExpression rules) Option.toList := by
  intro A
  refine .inner fun p => .ask kind_asks fun k => ?_
  split
  all_goals try exact tokenNode_yields _
  all_goals try exact literal_yields _
  all_goals try exact templateLiteral_yields hr _
  · exact (rescan_skips Token.Scanner.rescans_rescanSlash).keeps.bind fun _ => literal_yields _
  · exact (rescan_skips Token.Scanner.rescans_rescanSlash).keeps.bind fun _ => literal_yields _
  · exact parenthesizedExpression_yields hr _
  · exact arrayLiteral_yields hr _
  · exact objectLiteral_yields hr _
  · exact functionExpression_builds hr
  · refine .ask (nextOnLine_asks _) fun _ => .ite (fun _ => ?_) fun _ => nameOrNothing_yields _
    exact advance_skips.keeps.bind fun _ => functionExpression_builds hr
  · exact .before (classRest_builds hr) (.of_eq rfl)
  · exact advance_skips.moves.bind fun _ => make_builds (.of_children rfl rfl rfl)
  · exact memberName_yields _
  · exact nameOrNothing_yields _

/-! ### Accesses and calls -/

omit hr in
theorem access_builds {k : AccessKind} {e member : Option NodeId} {questionDot : Bool} :
    Builds text P ⟨.last, pos, e.toList ++ member.toList, outer⟩
      (access k pos e member questionDot) fun id => ⟨.last, pos, id.toList, outer⟩ :=
  makeFlagged_builds (.of_children rfl rfl rfl)

section Steps

variable {e : Option NodeId} {allowCalls : Bool}

theorem call_builds {types : Option NodeId} {flags : Flags}
    (h : ids = e.toList ++ types.toList) :
    Builds text P ⟨.last, pos, ids, outer⟩ (call rules pos e types flags)
      fun id => ⟨.last, pos, id.toList, outer⟩ :=
  (argumentList_yields hr _).bind fun list =>
    makeFlagged_builds (.of_children rfl rfl (by rw [h]; rfl))

theorem elementAccess_builds {questionDot : Bool} :
    Builds text P ⟨.last, pos, e.toList, outer⟩ (elementAccess rules pos e questionDot)
      fun id => ⟨.last, pos, id.toList, outer⟩ :=
  (expressionAllowingIn_yields hr _).bind fun _ => (expect_skips _).moves.bind fun _ =>
    access_builds

/-- One access or call takes up the expression before it. -/
theorem memberStep_builds :
    Builds text P ⟨.last, pos, e.toList, outer⟩ (memberStep rules pos allowCalls e)
      fun turn => ⟨.last, pos, turn.value.toList, outer⟩ := by
  refine .ask kind_asks fun k => ?_
  split
  · exact advance_skips.moves.bind fun _ => (memberName_yields _).bind fun name =>
      access_builds.bind fun id => .pure (.refl _)
  · refine advance_skips.moves.bind fun _ => .ask (at?_asks _) fun _ => .ite (fun _ => ?_)
      fun _ => .accept ?_ ?_
    · exact (call_builds hr (by simp)).bind fun id => .pure (.refl _)
    · exact (elementAccess_builds hr).bind fun id => .pure (.refl _)
    · exact (memberName_yields _).bind fun name => access_builds.bind fun id => .pure (.refl _)
  · exact advance_skips.moves.bind fun _ => (elementAccess_builds hr).bind fun id =>
      .pure (.refl _)
  · refine .ask lineBreakBefore_asks fun _ => .ite (fun _ => .pure (.refl _)) fun _ => ?_
    exact advance_skips.moves.bind fun _ =>
      (make_builds (.of_children rfl rfl rfl)).bind fun id => .pure (.refl _)
  · exact (templateLiteral_yields hr _).bind fun template =>
      (make_builds (.of_children rfl rfl rfl)).bind fun id => .pure (.refl _)
  · exact (templateLiteral_yields hr _).bind fun template =>
      (make_builds (.of_children rfl rfl rfl)).bind fun id => .pure (.refl _)
  · refine .ask (atCallTypeArguments?_asks hr) fun _ => .ite (fun _ => ?_)
      fun _ => .pure (.refl _)
    refine (typeArguments_yields hr _).bind fun types => .ask (at?_asks _) fun _ =>
      .ite (fun _ => ?_) fun _ => ?_
    · exact (call_builds hr rfl).bind fun id => .pure (.refl _)
    · -- Type arguments before a template are dropped.
      exact .pure (.forget (List.sublist_append_left _ _))
  · refine .ite (fun _ => ?_) fun _ => .pure (.refl _)
    exact (call_builds hr (by simp)).bind fun id => .pure (.refl _)
  · exact .pure (.refl _)

theorem memberRest_builds :
    Builds text P ⟨.last, pos, e.toList, outer⟩ (memberRest rules pos allowCalls e)
      fun id => ⟨.last, pos, id.toList, outer⟩ :=
  .loop (.refl _) fun _ => memberStep_builds hr

end Steps

theorem construction_yields :
    Yields text (fun c => c.kind = .newKeyword) (rules .construction) Option.toList :=
  hr.builds rfl

theorem constructionOrPrimary_yields :
    Yields text P (constructionOrPrimary rules) Option.toList := by
  intro A
  refine .ask (at?_asks _) fun _ => .ite (fun h => ?_) fun _ => primaryExpression_yields hr A
  exact (construction_yields hr A).on fun c hc => hc.2.mp h

theorem leftHandBody_yields : Yields text P (leftHandBody rules) Option.toList := by
  intro A
  exact .inner fun p => (constructionOrPrimary_yields hr _).bind fun e => memberRest_builds hr

omit hr in
/-- A token whose kind has a spelling is as long as that. -/
theorem stop_of_spelling {c : Cursor} {w : String} (hc : c.OnToken text)
    (hw : c.kind.spelling? = some w) : c.stop = c.start + Text.byteLength w.toList := by
  obtain ⟨l, hl, hk, -, hstop⟩ := hc.reads
  rw [hstop, ← hl.spelled w (hk ▸ hw), hl.isCut.byteLength_upTo]

theorem constructionBody_yields (h : ∀ c, P c → c.kind = .newKeyword) :
    Yields text P (constructionBody rules) Option.toList := by
  intro A
  refine .inner fun p => ?_
  -- The word has three letters, and what comes after it starts behind them.
  refine .bind (advance_builds (n := p + 3) fun c hc hp => ?_) fun _ => .ask tokenPos_asks
    fun calleePos => .ask (at?_asks _) fun _ => .ite (fun _ => ?_) fun _ => ?_
  · rw [stop_of_spelling hc (w := "new") (by rw [h c hp.1]; rfl), hp.2]
    rfl
  · refine .bind (makeBetween_builds (.of_children rfl rfl rfl) fun c hc _ hle => ?_)
      fun word => memberRest_builds hr
    exact Nat.min_eq_right (hc.1.2 ▸ hle)
  -- The callee is read from its own position on, and belongs to the construction then.
  refine .bind (B := fun callee => ⟨.last, calleePos, callee.toList,
    (p, []) :: (A.pos, A.ids) :: A.outer⟩) ?_ fun callee => ?_
  · exact .opened (fun c hc => hc.1.2) (constructionOrPrimary_yields hr _)
  refine .bind (B := fun callee => ⟨.last, p, callee.toList, (A.pos, A.ids) :: A.outer⟩)
    ((memberRest_builds hr).after fun _ => .merge) fun callee => ?_
  refine .ask (atCallTypeArguments?_asks hr) fun _ => .either (B := fun types =>
    ⟨.last, p, callee.toList ++ types.toList, (A.pos, A.ids) :: A.outer⟩)
    (fun _ => typeArguments_yields hr _) (fun _ => .pure (.of_eq (by simp))) fun types => ?_
  refine .ask (at?_asks _) fun _ => .either (B := fun list => ⟨.last, p,
    callee.toList ++ types.toList ++ Data.listNodes list, (A.pos, A.ids) :: A.outer⟩)
    (fun _ => ?_) (fun _ => .pure (.of_eq (by simp [Data.listNodes]))) fun list => ?_
  · rw [map_eq_pure_bind]
    exact (argumentList_yields hr _).bind fun list => .pure (.refl _)
  · exact make_builds (.of_children rfl rfl rfl)

end Rules

end Unchain.Grammar
