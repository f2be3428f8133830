import Unchain.Proofs.Scoping.Findings

/-!
# Functions are quiet

Names, types, patterns and parameters are quiet, for there are no statements below
them. A function is quiet whatever its body is: its statements are its own. A name
is made of a token that is there, so it starts before the next one
(`nameNode_hushes`).
-/

namespace Unchain.Grammar

open Syntax (Data Function FunctionKind NodeId NodeList)
open Token (Cursor Kind)

variable {text : List Char} {rules : Rules} {P : Cursor → Prop} {pos : Nat}
  {quiet row : List NodeId}

/-! ### Names -/

/-- Nothing that can be a name is the end of the text. -/
theorem atIdentifier?_names :
    Asks text atIdentifier? fun c b => b = true → c.kind ≠ .endOfFile := by
  refine .of_run fun s => ⟨_, rfl, fun h hend => ?_⟩
  rw [hend] at h
  exact nomatch h

theorem tokenNode_hushes : Hushes text P tokenNode Option.toList := by
  refine .inner fun p => .ask kind_asks fun k => ?_
  exact advance_skips.finds.bind fun _ => make_quiet rfl rfl (List.nil_subset _)

theorem nameNode_hushes (h : ∀ c, P c → c.kind ≠ .endOfFile) :
    Hushes text P nameNode Option.toList := by
  refine .inner fun p => .ask tokenValue_asks fun word => ?_
  refine .advance (fun c hc => ⟨h c hc.1.1, hc.1.2⟩) ?_
  exact .ask lastStop_asks fun _ => makeBetween_name rfl fun _ hc => hc.1

theorem identifier_hushes : Hushes text P identifier Option.toList := by
  intro F
  refine .ask atIdentifier?_names fun found => .ite (fun h => ?_) fun _ => ?_
  · exact nameNode_hushes (fun c hc => hc.2 h) F
  · exact (errorHere_skips _).finds.bind fun _ => .pure (.of_eq (by simp))

theorem memberName_hushes : Hushes text P memberName Option.toList := by
  intro F
  refine .ask kind_asks fun k => .ite (fun hk => ?_) fun _ => .ite (fun hk => ?_) fun _ => ?_
  · have hthere (c : Cursor) (hc : P c ∧ c.kind = k) : c.kind ≠ .endOfFile := by
      rw [hc.2, hk]
      exact nofun
    refine Hushes.inner (fun p => .ask tokenValue_asks fun word => ?_) F
    refine .advance (fun c hc => ⟨hthere c hc.1.1, hc.1.2⟩) ?_
    exact .ask lastStop_asks fun _ => makeBetween_name rfl fun _ hc => hc.1
  · refine nameNode_hushes (fun c hc => ?_) F
    rw [hc.2]
    rintro rfl
    exact nomatch hk
  · exact (errorHere_skips _).finds.bind fun _ => .pure (.of_eq (by simp))

theorem literal_hushes : Hushes text P literal Option.toList := by
  refine .inner fun p => .ask kind_asks fun k => .ask get_asks fun s => ?_
  exact advance_skips.finds.bind fun _ => make_quiet rfl rfl (List.nil_subset _)

theorem parameterModifiers_hushes : Hushes text P parameterModifiers Array.toList := by
  intro F
  refine .loop (.of_eq (by simp)) fun nodes => .ask kind_asks fun k => ?_
  have hrest (Q : Cursor → Prop) (isModifier : Bool) :
      Gathers text Q (F.hushed nodes.toList) (do
        if isModifier then return .again (pushOption nodes (← tokenNode)) else return .done nodes :
          Reader (Turn (Array NodeId)))
        fun turn => F.hushed turn.value.toList := by
    refine .ite (fun _ => (tokenNode_hushes _).bind fun id => ?_) fun _ => .pure (.refl _)
    exact .pure (.of_eq (by simp))
  exact .ite (fun _ => .ask (nextOnLine_asks _) (hrest _)) fun _ => .pureBind (hrest _ false)

/-- A hole is nothing before its comma. -/
theorem hole_hushes : Hushes text P hole Option.toList := by
  refine .inner fun p => .bind (makeBetween_quiet rfl rfl (List.nil_subset _)) fun id => ?_
  exact advance_skips.finds.bind fun _ => .pure (.refl _)

section Rules

variable (hr : Scopes text rules)
include hr

/-! ### Types -/

omit hr in
/-- What was read over becomes a node that has no parts. -/
theorem typeNodeFrom_gathers :
    Gathers text P ⟨pos, quiet, row⟩ (typeNodeFrom pos) fun id => ⟨pos, id.toList, []⟩ :=
  .ask lastStop_asks fun _ => .ask (sourceText_asks _ _) fun _ =>
    makeBetween_quiet rfl rfl (List.nil_subset _)

theorem typeNode_hushes : Hushes text P (typeNode rules) Option.toList := by
  refine .inner fun p => ?_
  exact (skipType_skips hr.toPlaces).finds.bind fun _ => typeNodeFrom_gathers

theorem declaredType_hushes : Hushes text P (declaredType rules) Option.toList := by
  intro F
  refine (accept_skips _).finds.bind fun _ => .ite (fun _ => typeNode_hushes hr F) fun _ => ?_
  exact .pure (.of_eq (by simp))

theorem resultType_hushes : Hushes text P (resultType rules) Option.toList := by
  intro F
  refine (accept_skips _).finds.bind fun _ => .ite (fun _ => Hushes.inner (fun p => ?_) F)
    fun _ => .pure (.of_eq (by simp))
  exact (hr.toPlaces.silent rfl).finds.bind fun _ => typeNodeFrom_gathers

theorem typeArguments_hushes : Hushes text P (typeArguments rules) Option.toList := by
  refine .inner fun p => ?_
  exact (skipTypeArguments_skips hr.toPlaces).finds.bind fun _ => typeNodeFrom_gathers

theorem typeParameters_hushes : Hushes text P (typeParameters rules) Option.toList := by
  intro F
  refine .ask (at?_asks _) fun _ => .ite (fun _ => typeArguments_hushes hr F) fun _ => ?_
  exact .pure (.of_eq (by simp))

/-! ### Expressions inside other rules -/

theorem assignment_hushes : Hushes text P (rules .assignment) Option.toList :=
  hr.hush .assignment rfl rfl fun _ => trivial

theorem assignmentAllowingIn_hushes :
    Hushes text P (assignmentAllowingIn rules) Option.toList := by
  intro F
  unfold assignmentAllowingIn allowingIn
  exact inContext_gathers (assignment_hushes hr F)

theorem expressionAllowingIn_hushes :
    Hushes text P (expressionAllowingIn rules) Option.toList := by
  intro F
  unfold expressionAllowingIn allowingIn
  exact inContext_gathers (hr.hush .expression rfl rfl (fun _ => trivial) F)

theorem optionalValue_hushes : Hushes text P (optionalValue rules) Option.toList := by
  intro F
  refine (accept_skips _).finds.bind fun _ => .ite (fun _ => assignmentAllowingIn_hushes hr F)
    fun _ => .pure (.of_eq (by simp))

theorem bindingName_hushes : Hushes text P (rules .bindingName) Option.toList :=
  hr.hush .bindingName rfl rfl fun _ => trivial

theorem propertyName_hushes : Hushes text P (propertyName rules) Option.toList := by
  intro F
  refine .ask kind_asks fun k => .ite (fun _ => literal_hushes F) fun _ => .ite (fun _ => ?_)
    fun _ => memberName_hushes F
  refine Hushes.inner (fun p => advance_skips.finds.bind fun _ =>
    (assignmentAllowingIn_hushes hr _).bind fun e => (expect_skips _).finds.bind fun _ => ?_) F
  exact make_quiet rfl rfl (List.Subset.refl _)

/-! ### Binding patterns -/

theorem objectBindingElement_hushes :
    Hushes text P (objectBindingElement rules) Option.toList := by
  refine .inner fun p => (accept_skips _).finds.bind fun isRest => ?_
  extract_lets named
  -- Both ways to get here have read the key and the name.
  have hnamed (names : Option NodeId × Option NodeId) :
      Gathers text AnyToken ⟨p, names.1.toList ++ names.2.toList, []⟩ (named names)
        fun id => ⟨p, id.toList, []⟩ :=
    (optionalValue_hushes hr _).bind fun initializer => make_quiet rfl rfl (List.Subset.refl _)
  clear_value named
  refine .ite (fun _ => ?_) fun _ => ?_
  · exact (identifier_hushes _).bind fun name => .pureBind (hnamed (none, name))
  · refine (propertyName_hushes hr _).bind fun key => (accept_skips _).finds.bind fun _ =>
      .ite (fun _ => ?_) fun _ => .pureBind (hnamed (none, key))
    exact (bindingName_hushes hr _).bind fun name => .pureBind (hnamed (key, name))

theorem arrayBindingElement_hushes :
    Hushes text P (arrayBindingElement rules) Option.toList := by
  refine .inner fun p => (accept_skips _).finds.bind fun isRest =>
    (bindingName_hushes hr _).bind fun name => (optionalValue_hushes hr _).bind fun value => ?_
  exact make_quiet rfl rfl (List.Subset.refl _)

theorem objectPattern_hushes : Hushes text P (objectPattern rules) Option.toList := by
  refine .inner fun p => advance_skips.finds.bind fun _ => .ask tokenPos_asks fun listPos => ?_
  refine .bind (G := fun nodes => ⟨p, nodes.toList, []⟩) (.loop (.refl _) fun nodes => ?_)
    fun nodes => .ask tokenPos_asks fun listStop => (expect_skips _).finds.bind fun _ =>
    make_quiet rfl rfl (List.Subset.refl _)
  refine .ask (atAny?_asks _) fun _ => .ite (fun _ => .pure (.refl _)) fun _ =>
    (objectBindingElement_hushes hr _).bind fun id => (accept_skips _).finds.bind fun more => ?_
  cases more <;> exact .pure (.of_eq (by simp))

theorem arrayPattern_hushes : Hushes text P (arrayPattern rules) Option.toList := by
  refine .inner fun p => advance_skips.finds.bind fun _ => .ask tokenPos_asks fun listPos => ?_
  refine .bind (G := fun nodes => ⟨p, nodes.toList, []⟩) (.loop (.refl _) fun nodes => ?_)
    fun nodes => .ask tokenPos_asks fun listStop => (expect_skips _).finds.bind fun _ =>
    make_quiet rfl rfl (List.Subset.refl _)
  refine .ask (atAny?_asks _) fun _ => .ite (fun _ => .pure (.refl _)) fun _ =>
    .ask (at?_asks _) fun _ => .ite (fun _ => ?_) fun _ => ?_
  · exact (hole_hushes _).bind fun id => .pure (.of_eq (by simp))
  · refine (arrayBindingElement_hushes hr _).bind fun id => (accept_skips _).finds.bind
      fun more => ?_
    cases more <;> exact .pure (.of_eq (by simp))

theorem bindingNameBody_hushes : Hushes text P (bindingNameBody rules) Option.toList := by
  intro F
  refine .ask kind_asks fun k => ?_
  split
  · exact objectPattern_hushes hr F
  · exact arrayPattern_hushes hr F
  · exact identifier_hushes F

/-! ### Parameters -/

theorem parameterName_hushes : Hushes text P (parameterName rules) Option.toList := by
  intro F
  refine .ask (at?_asks _) fun found => .ite (fun hfound => Hushes.inner (fun p => ?_) F)
    fun _ => bindingName_hushes hr F
  have hthis (c : Cursor) (hc : (P c ∧ (found = true ↔ c.kind = .thisKeyword)) ∧ c.start = p) :
      c.kind ≠ .endOfFile ∧ c.start = p := by
    rw [hc.1.2.mp hfound]
    exact ⟨nofun, hc.2⟩
  exact .advance hthis (.ask lastStop_asks fun _ => makeBetween_name rfl fun _ hc => hc.1)

theorem parameter_hushes : Hushes text P (parameter rules) Option.toList := by
  refine .inner fun p => (parameterModifiers_hushes _).bind fun modifiers =>
    (accept_skips _).finds.bind fun isRest => (parameterName_hushes hr _).bind fun name =>
    (accept_skips _).finds.bind fun isOptional => (declaredType_hushes hr _).bind fun type =>
    (optionalValue_hushes hr _).bind fun value => ?_
  exact make_quiet rfl rfl (by simp [Data.children])

theorem parameterList_hushes : Hushes text P (parameterList rules) NodeList.nodes := by
  intro F
  refine .ask tokenPos_asks fun listPos => (expect_skips _).finds.bind fun _ => ?_
  refine .bind (G := fun list => F.hushed list.1.toList)
    (.loop (.of_eq (by simp)) fun (nodes, comma) => ?_) fun (nodes, comma) =>
    (expect_skips _).finds.bind fun _ => .ask lastStop_asks fun _ => .pure (.refl _)
  refine .ask (atAny?_asks _) fun _ => .ite (fun _ => .pure (.refl _)) fun _ =>
    .ask tokenPos_asks fun before => (parameter_hushes hr _).bind fun id =>
    (accept_skips _).finds.bind fun _ => .ite (fun _ => ?_) fun _ => ?_
  · exact .pure (.of_eq (by simp))
  · refine .ask tokenPos_asks fun now => .ite (fun _ => ?_) fun _ => ?_
    · exact .pure (.of_eq (by simp))
    · exact .pure (.of_eq (by simp))

/-! ### The rest of a function -/

theorem functionBlock_lines {isAsync isGenerator : Bool} :
    Lines text P (functionBlock rules isAsync isGenerator) Option.toList := by
  intro F
  unfold functionBlock inFunction
  exact inContext_gathers (hr.line .block rfl F)

section Rest

variable {k : FunctionKind} {modifiers : Option NodeList} {isAsync isGenerator : Bool}
  {name : Option NodeId}

/-- The modifiers and the name of a function are quiet, and so is what it reads but for its body. -/
theorem functionRest_gathers :
    Gathers text P ⟨pos, Data.listNodes modifiers ++ name.toList, []⟩
      (functionRest rules k pos modifiers isAsync isGenerator name)
      fun id => ⟨pos, id.toList, []⟩ := by
  unfold functionRest inFunction
  refine (typeParameters_hushes hr _).bind fun types =>
    (inContext_gathers (parameterList_hushes hr _)).bind fun parameters =>
    (resultType_hushes hr _).bind fun type => .ask (at?_asks _) fun _ => ?_
  extract_lets made
  have hmade (body : Option NodeId) : Gathers text AnyToken ⟨pos,
      Data.listNodes modifiers ++ name.toList ++ types.toList ++ parameters.nodes ++ type.toList,
      body.toList⟩ (made body) fun id => ⟨pos, id.toList, []⟩ := by
    refine .ask lastStop_asks fun _ => makeBetween_function (List.Subset.refl _) fun _ h => ?_
    exact List.mem_append_right _ h
  clear_value made
  refine .ite (fun _ => (functionBlock_lines hr _).bind hmade) fun _ => ?_
  exact endStatement_skips.finds.bind fun _ => .pureBind (hmade none)

theorem methodRest_gathers :
    Gathers text P ⟨pos, Data.listNodes modifiers ++ name.toList, []⟩
      (methodRest rules k pos modifiers isAsync isGenerator name)
      fun id => ⟨pos, id.toList, []⟩ :=
  (accept_skips _).finds.bind fun _ => functionRest_gathers hr

end Rest

end Rules

end Unchain.Grammar
