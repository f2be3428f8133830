import Unchain.Proofs.Placing.Types

/-!
# Functions are placed

The nodes of names, patterns, parameters and functions take up the nodes that
were made between their first token and their last. A list of parameters or of
elements of a pattern is not a node: its nodes stay with the construct around it
until that is made.
-/

namespace Unchain.Grammar

open Syntax (Data Flags FunctionKind NodeId NodeList Tree)
open Token (Cursor Kind)

variable {text : List Char} {rules : Rules} {P : Cursor → Prop}
  {pos : Nat} {ids : List NodeId} {outer : List (Nat × List NodeId)}

/-! ### Lists of nodes -/

@[simp] theorem toList_pushOption (nodes : Array NodeId) (id : Option NodeId) :
    (pushOption nodes id).toList = nodes.toList ++ id.toList := by
  cases id <;> simp [pushOption]

@[simp] theorem listNodes_modifierList (nodes : Array NodeId) :
    Data.listNodes (modifierList nodes) = nodes.toList := by
  unfold modifierList
  split
  · next h =>
    rw [Array.isEmpty_iff] at h
    rw [h]
    rfl
  · rfl

/-! ### Names -/

theorem tokenNode_yields : Yields text P tokenNode Option.toList := by
  intro A
  refine .inner fun p => .ask kind_asks fun k => ?_
  exact advance_skips.moves.bind fun _ => make_builds (.of_children rfl rfl rfl)

theorem nameNode_yields : Yields text P nameNode Option.toList := by
  intro A
  refine .inner fun p => .ask tokenValue_asks fun word => ?_
  exact advance_skips.moves.bind fun _ => make_builds (.of_children rfl rfl rfl)

theorem identifier_yields : Yields text P identifier Option.toList := by
  intro A
  refine .ask atIdentifier?_asks fun _ => .ite (fun _ => nameNode_yields A) fun _ => ?_
  exact errorHere_builds.bind fun _ => .pure (.of_eq (by simp))

/-- What is read as a name is the current token. -/
theorem data?_of_run_identifier {s s' : State} {id : NodeId}
    (hrun : identifier.run s = some (some id, s')) :
    s.scanner.cursor.kind.isIdentifierLike = true ∧
      s'.tree.data? id = some (.identifier s.scanner.cursor.value) := by
  obtain ⟨found, s₁, hfound, hrun⟩ := of_run_bind hrun
  obtain ⟨rfl, rfl⟩ := Prod.mk.inj (Option.some.inj hfound)
  split at hrun
  · next hname =>
    obtain ⟨pos, s₂, hpos, hrun⟩ := of_run_bind hrun
    obtain ⟨-, rfl⟩ := Prod.mk.inj (Option.some.inj hpos)
    obtain ⟨word, s₃, hword, hrun⟩ := of_run_bind hrun
    obtain ⟨rfl, rfl⟩ := Prod.mk.inj (Option.some.inj hword)
    obtain ⟨_, s₄, hadvance, hmake⟩ := of_run_bind hrun
    obtain ⟨heq, rfl⟩ := Prod.mk.inj (Option.some.inj hmake)
    obtain rfl := Option.some.inj heq
    exact ⟨(Bool.and_eq_true_iff.mp (Bool.and_eq_true_iff.mp hname).1).1,
      Syntax.Tree.data?_add_self s₄.tree (.identifier _) pos s₄.lastStop {}⟩
  · obtain ⟨_, s₂, -, hrun⟩ := of_run_bind hrun
    cases hrun

/-- What is read as a name may be bound. -/
theorem mayBind_of_run_identifier {s s' : State} {id : NodeId} (hs : Fits text s)
    (hrun : identifier.run s = some (some id, s')) :
    ∃ d, s'.tree.data? id = some d ∧ d.MayBind := by
  obtain ⟨hname, hdata⟩ := data?_of_run_identifier hrun
  exact ⟨_, hdata, hs.onToken.mayBind hname⟩

/-- A parameter may be called by what is read as a name. -/
theorem isNamed_of_run_identifier {s s' : State} {name : Option NodeId} (hs : Fits text s)
    (hrun : identifier.run s = some (name, s')) : s'.tree.IsNamed (.parameter { name }) := by
  rintro id rfl
  obtain ⟨d, hdata, hname⟩ := mayBind_of_run_identifier hs hrun
  exact ⟨d, hdata, .inl hname⟩

theorem memberName_yields : Yields text P memberName Option.toList := by
  intro A
  refine .ask kind_asks fun k => .ite (fun _ => ?_) fun _ => .ite (fun _ => nameNode_yields A)
    fun _ => ?_
  · refine .inner fun p => .ask tokenValue_asks fun word => ?_
    exact advance_skips.moves.bind fun _ => make_builds (.of_children rfl rfl rfl)
  · exact errorHere_builds.bind fun _ => .pure (.of_eq (by simp))

theorem literal_yields : Yields text P literal Option.toList := by
  intro A
  refine .inner fun p => .ask kind_asks fun k => .ask get_asks fun s => ?_
  exact advance_skips.moves.bind fun _ => make_builds (.of_children rfl rfl rfl)

theorem parameterModifiers_builds :
    Builds text P ⟨.start, pos, ids, outer⟩ parameterModifiers
      fun nodes => ⟨.start, pos, ids ++ nodes.toList, outer⟩ := by
  refine .loop (.of_eq (by simp)) fun nodes => .ask kind_asks fun k => ?_
  have hrest (Q : Cursor → Prop) (isModifier : Bool) :
      Builds text Q ⟨.start, pos, ids ++ nodes.toList, outer⟩ (do
        if isModifier then return .again (pushOption nodes (← tokenNode)) else return .done nodes :
          Reader (Turn (Array NodeId)))
        fun turn => ⟨.start, pos, ids ++ turn.value.toList, outer⟩ := by
    refine .ite (fun _ => (tokenNode_yields _).bind fun id => ?_) fun _ => .pure (.refl _)
    exact .pure (.trans .start (.of_eq (by simp)))
  exact .ite (fun _ => .ask (nextOnLine_asks _) (hrest _)) fun _ => .pureBind (hrest _ false)

/-- An accessor is a member of its own kind, so it is no expression. -/
theorem accessorHere?_asks : Asks text accessorHere? fun _ accessor => ∀ k parts,
    accessor = some k → (Data.function k parts).ownName? = none := by
  refine .next kind_asks fun kind => ?_
  split
  · next k hk =>
    refine .next (lookAhead_asks (N := fun _ => False) ?_) fun named => .pure ?_
    · exact .bind advance_skips fun _ => .ask kind_asks fun _ => .pure id
    · rintro - k' parts haccessor
      obtain ⟨-, heq⟩ := Option.ite_none_right_eq_some.mp haccessor
      obtain rfl := Option.some.inj heq
      cases kind <;> cases hk <;> rfl
  · exact .pure fun _ _ _ haccessor => nomatch haccessor

theorem acceptMethodAsync_skips : Skips text acceptMethodAsync fun _ => False := by
  refine .ask (at?_asks _) fun _ => .ite (fun _ => .ask (nextOnLine_asks _) fun _ => ?_)
    fun _ => .pure id
  exact .ite (fun _ => .bind advance_skips fun _ => .pure id) fun _ => .pure id

section Rules

variable (hr : Places text rules)
include hr

/-! ### Expressions inside other rules -/

theorem assignmentAllowingIn_yields :
    Yields text P (assignmentAllowingIn rules) Option.toList := by
  intro A
  unfold assignmentAllowingIn allowingIn
  exact inContext_builds (hr.yields .assignment rfl (fun _ => trivial) A)

theorem expressionAllowingIn_yields :
    Yields text P (expressionAllowingIn rules) Option.toList := by
  intro A
  unfold expressionAllowingIn allowingIn
  exact inContext_builds (hr.yields .expression rfl (fun _ => trivial) A)

theorem optionalValue_adds : Adds text P (optionalValue rules) Option.toList := by
  intro pos ids outer
  exact .accept (assignmentAllowingIn_yields hr _) (.pure (.of_eq (by simp)))

theorem bindingName_yields : Yields text P (rules .bindingName) Option.toList :=
  hr.yields .bindingName rfl fun _ => trivial

theorem propertyName_yields : Yields text P (propertyName rules) Option.toList := by
  intro A
  refine .ask kind_asks fun k => .ite (fun _ => literal_yields A) fun _ => .ite (fun _ => ?_)
    fun _ => memberName_yields A
  refine .inner fun p => advance_skips.moves.bind fun _ =>
    (assignmentAllowingIn_yields hr _).bind fun e => (expect_skips _).moves.bind fun _ => ?_
  exact make_builds (.of_children rfl rfl rfl)

/-! ### Binding patterns -/

omit hr in
/-- A hole is nothing before its comma. -/
theorem hole_yields : Yields text P hole Option.toList := by
  intro A
  refine .inner fun p => ?_
  refine .bind (makeBefore_builds (.of_children rfl rfl rfl) fun c hc => hc.2) fun id => ?_
  exact advance_skips.moves.bind fun _ => .pure (.refl _)

theorem objectBindingElement_yields :
    Yields text P (objectBindingElement rules) Option.toList := by
  intro A
  refine .inner fun p => (accept_skips _).keeps.bind fun isRest => ?_
  extract_lets named
  -- Both ways to get here have read the key and the name.
  have hnamed (names : Option NodeId × Option NodeId) :
      Builds text AnyToken ⟨.last, p, names.1.toList ++ names.2.toList, (A.pos, A.ids) :: A.outer⟩
        (named names) fun id => ⟨.last, p, id.toList, (A.pos, A.ids) :: A.outer⟩ :=
    (optionalValue_adds hr _ _ _).bind fun initializer => make_builds (.of_children rfl rfl rfl)
  clear_value named
  refine .ite (fun _ => ?_) fun _ => ?_
  · exact (identifier_yields _).bind fun name => .pureBind (hnamed (none, name))
  · refine (propertyName_yields hr _).bind fun key => .accept ?_ ?_
    · exact (bindingName_yields hr _).bind fun name => .pureBind (hnamed (key, name))
    · exact .pureBind (hnamed (none, key))

theorem arrayBindingElement_yields :
    Yields text P (arrayBindingElement rules) Option.toList := by
  intro A
  refine .inner fun p => (accept_skips _).keeps.bind fun isRest =>
    (bindingName_yields hr _).bind fun name => (optionalValue_adds hr _ _ _).bind fun value => ?_
  exact make_builds (.of_children rfl rfl rfl)

theorem objectPattern_yields : Yields text P (objectPattern rules) Option.toList := by
  intro A
  refine .inner fun p => advance_skips.moves.bind fun _ => .ask tokenPos_asks fun listPos => ?_
  refine .bind (B := fun nodes => ⟨.last, p, nodes.toList, (A.pos, A.ids) :: A.outer⟩)
    (.loop (.refl _) fun nodes => ?_) fun nodes => .ask tokenPos_asks fun listStop =>
    (expect_skips _).moves.bind fun _ => make_builds (.of_children rfl rfl rfl)
  refine .ask (atAny?_asks _) fun _ => .ite (fun _ => .pure (.refl _)) fun _ =>
    (objectBindingElement_yields hr _).bind fun id => .accept ?_ ?_
  · exact .pure (.of_eq (by simp))
  · exact .pure (.of_eq (by simp))

theorem arrayPattern_yields : Yields text P (arrayPattern rules) Option.toList := by
  intro A
  refine .inner fun p => advance_skips.moves.bind fun _ => .ask tokenPos_asks fun listPos => ?_
  refine .bind (B := fun nodes => ⟨.last, p, nodes.toList, (A.pos, A.ids) :: A.outer⟩)
    (.loop (.refl _) fun nodes => ?_) fun nodes => .ask tokenPos_asks fun listStop =>
    (expect_skips _).moves.bind fun _ => make_builds (.of_children rfl rfl rfl)
  refine .ask (atAny?_asks _) fun _ => .ite (fun _ => .pure (.refl _)) fun _ =>
    .ask (at?_asks _) fun _ => .ite (fun _ => ?_) fun _ => ?_
  · exact (hole_yields _).bind fun id => .pure (.of_eq (by simp))
  · refine (arrayBindingElement_yields hr _).bind fun id => .accept ?_ ?_
    · exact .pure (.of_eq (by simp))
    · exact .pure (.of_eq (by simp))

theorem bindingNameBody_yields : Yields text P (bindingNameBody rules) Option.toList := by
  intro A
  refine .ask kind_asks fun k => ?_
  split
  · exact objectPattern_yields hr A
  · exact arrayPattern_yields hr A
  · exact identifier_yields A

omit hr in
/-- What is read to be bound may be. -/
theorem mayBind_of_run_bindingNameBody {s s' : State} {id : NodeId} (hs : Fits text s)
    (hrun : (bindingNameBody rules).run s = some (some id, s')) :
    ∃ d, s'.tree.data? id = some d ∧ d.MayBind := by
  obtain ⟨k, s₁, hkind, hrun⟩ := of_run_bind hrun
  obtain ⟨-, rfl⟩ := Prod.mk.inj (Option.some.inj hkind)
  split at hrun
  iterate 2
    · iterate 6 obtain ⟨_, _, -, hrun⟩ := of_run_bind hrun
      obtain ⟨heq, rfl⟩ := Prod.mk.inj (Option.some.inj hrun)
      obtain rfl := Option.some.inj heq
      exact ⟨_, Syntax.Tree.data?_add_self .., trivial⟩
  · exact mayBind_of_run_identifier hs hrun

/-! ### Parameters -/

theorem parameterName_yields : Yields text P (parameterName rules) Option.toList := by
  intro A
  refine .ask (at?_asks _) fun _ => .ite (fun _ => .inner fun p => ?_)
    fun _ => bindingName_yields hr A
  exact advance_skips.moves.bind fun _ => make_builds (.of_children rfl rfl rfl)

/-- A parameter is called as it may be. -/
theorem isNamed_of_run_parameterName {s s' : State} {name : Option NodeId} (hs : Fits text s)
    (hrun : (parameterName rules).run s = some (name, s')) :
    s'.tree.IsNamed (.parameter { name }) := by
  rintro id rfl
  obtain ⟨receiver, s₁, hreceiver, hrun⟩ := of_run_bind hrun
  obtain ⟨-, rfl⟩ := Prod.mk.inj (Option.some.inj hreceiver)
  split at hrun
  · iterate 2 obtain ⟨_, _, -, hrun⟩ := of_run_bind hrun
    obtain ⟨heq, rfl⟩ := Prod.mk.inj (Option.some.inj hrun)
    obtain rfl := Option.some.inj heq
    exact ⟨_, Syntax.Tree.data?_add_self .., .inr rfl⟩
  · obtain ⟨d, hdata, hname⟩ := hr.binds hs hrun
    exact ⟨d, hdata, .inl hname⟩

theorem parameter_yields : Yields text P (parameter rules) Option.toList := by
  intro A
  have hlasts (name : Option NodeId) := lasts_isNamed (.parameter { name })
  refine .inner fun p => parameterModifiers_builds.bind fun modifiers =>
    (accept_skips _).keeps.bind fun isRest => (parameterName_yields hr _).bindWhere
    (isNamed_of_run_parameterName hr) fun name => .after (hlasts name) (accept_skips _).keeps
    fun isOptional => .after (hlasts name) (declaredType_adds hr _ _ _) fun type =>
    .after (hlasts name) (optionalValue_adds hr _ _ _) fun value => ?_
  refine make_buildsWhere (hlasts name) fun t ht => ⟨fun id => ?_, ⟨_, .inl rfl, ?_⟩, ht⟩
  · simp [Data.parts, Data.children]
  · simp [Data.children]

theorem parameterList_yields : Yields text P (parameterList rules) NodeList.nodes := by
  intro A
  refine .ask tokenPos_asks fun listPos => (expect_skips _).moves.bind fun _ => ?_
  refine .bind (B := fun list => ⟨.last, A.pos, A.ids ++ list.1.toList, A.outer⟩)
    (.loop (.of_eq (by simp)) fun (nodes, comma) => ?_) fun (nodes, comma) =>
    (expect_skips _).moves.bind fun _ => .ask lastStop_asks fun _ => .pure (.refl _)
  refine .ask (atAny?_asks _) fun _ => .ite (fun _ => .pure (.refl _)) fun _ =>
    .ask tokenPos_asks fun before => (parameter_yields hr _).bind fun id => .accept ?_ ?_
  · refine .ask tokenPos_asks fun now => .ite (fun _ => ?_) fun _ => ?_
    · exact .pure (.of_eq (by simp))
    · exact .pure (.of_eq (by simp))
  · exact .pure (.of_eq (by simp))

/-! ### The rest of a function -/

theorem functionBlock_yields {isAsync isGenerator : Bool} :
    Yields text P (functionBlock rules isAsync isGenerator) Option.toList := by
  intro A
  unfold functionBlock inFunction
  exact inContext_builds (hr.yields .block rfl (fun _ => trivial) A)

/-- A function of this kind may be called so. -/
def MayBeCalled (k : FunctionKind) (name : Option NodeId) (t : Tree) : Prop :=
  ∀ parts : Syntax.Function, parts.name = name → t.IsNamed (.function k parts)

omit hr in
/-- A function that is an expression is called by a name. -/
theorem mayBeCalled_of_run_identifier {g : Context → Context} {s s' : State} {name : Option NodeId}
    (hrun : (inContext g identifier).run s = some (name, s')) :
    MayBeCalled .expression name s'.tree := by
  rintro parts rfl id hid
  obtain ⟨before, s₁, hbefore, hrun⟩ := of_run_bind hrun
  obtain ⟨_, s₂, hcontext, hrun⟩ := of_run_bind hrun
  obtain ⟨name, s₃, hname, hrun⟩ := of_run_bind hrun
  obtain ⟨rfl, rfl⟩ := Prod.mk.inj (Option.some.inj hrun)
  rw [show parts.name = some id from hid] at hname
  exact ⟨_, (data?_of_run_identifier hname).2, rfl⟩

omit hr in
theorem mayBeCalled_none (t : Tree) : MayBeCalled .expression none t :=
  fun parts hparts id hid => nomatch hparts.symm.trans (show parts.name = some id from hid)

section Rest

variable {k : FunctionKind} {modifiers : Option NodeList} {isAsync isGenerator : Bool}
  {name : Option NodeId}

omit hr in
theorem lasts_mayBeCalled : Lasts (MayBeCalled k name) :=
  fun _ _ hg h parts hparts => (h parts hparts).grows hg

/-- A function takes up its modifiers and its name, and what it reads itself. That it may be called
so is known of the tree before. -/
theorem functionRest_buildsWhere :
    BuildsWhere (MayBeCalled k name) text P
      ⟨.last, pos, Data.listNodes modifiers ++ name.toList, outer⟩
      (functionRest rules k pos modifiers isAsync isGenerator name)
      fun id => ⟨.last, pos, id.toList, outer⟩ := by
  have hlasts : Lasts (MayBeCalled k name) := lasts_mayBeCalled
  refine .after hlasts (typeParameters_adds hr _ _ _) fun types =>
    .after hlasts (inContext_builds (parameterList_yields hr _)) fun parameters =>
    .after hlasts (resultType_adds hr _ _ _) fun type =>
    .after hlasts (at?_asks _).skips.keeps fun _ => ?_
  -- Either a body was read, or there is none.
  have hmake (body : Option NodeId) : BuildsWhere (MayBeCalled k name) text AnyToken
      ⟨.last, pos, Data.listNodes modifiers ++ name.toList ++ types.toList ++ parameters.nodes ++
        type.toList ++ body.toList, outer⟩
      (make (.function k
        ⟨modifiers, isAsync, isGenerator, name, types, parameters, type, body⟩) pos)
      fun id => ⟨.last, pos, id.toList, outer⟩ :=
    make_buildsWhere hlasts fun t ht => ⟨fun id => .rfl, ⟨_, .inl rfl, .refl _⟩, ht _ rfl⟩
  refine .ite (fun _ => .after hlasts (functionBlock_yields hr _) hmake) fun _ =>
    .after hlasts endStatement_skips.keeps fun _ => .after hlasts (.pure (.of_eq ?_)) hmake
  simp

/-- A function takes up its modifiers and its name, and what it reads itself. -/
theorem functionRest_builds (hk : ∀ parts, (Data.function k parts).ownName? = none) :
    Builds text P ⟨.last, pos, Data.listNodes modifiers ++ name.toList, outer⟩
      (functionRest rules k pos modifiers isAsync isGenerator name)
      fun id => ⟨.last, pos, id.toList, outer⟩ :=
  (functionRest_buildsWhere hr).builds fun _ parts _ _ hname =>
    nomatch (hk parts).symm.trans hname

theorem methodRest_builds (hk : ∀ parts, (Data.function k parts).ownName? = none) :
    Builds text P ⟨.last, pos, Data.listNodes modifiers ++ name.toList, outer⟩
      (methodRest rules k pos modifiers isAsync isGenerator name)
      fun id => ⟨.last, pos, id.toList, outer⟩ :=
  (accept_skips _).keeps.bind fun _ => functionRest_builds hr hk

end Rest

end Rules

end Unchain.Grammar
