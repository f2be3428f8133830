import Unchain.Proofs.Grammar.Types

/-!
# Functions are read to the end

Every step of the grammar of names, patterns, parameters and functions answers.
The elements of a pattern and the parameters of a function are told apart by
commas, so that a list goes on only after it has passed one.
-/

namespace Unchain.Grammar

open Syntax (Data Flags FunctionKind NodeId NodeList)
open Token (Kind)

variable {rules : Rules} {c : Nat} {P : Spot → Prop}

/-! ### Nodes and names -/

theorem make_stays (data : Data) (pos : Nat) : Stays rules c P (make data pos) :=
  .look lastStop_stays fun _ => makeBetween_stays _ _ _ _

theorem makeFlagged_stays (data : Data) (pos : Nat) (flags : Flags) :
    Stays rules c P (makeFlagged data pos flags) :=
  .look lastStop_stays fun _ => makeBetween_stays _ _ _ _

theorem makeVerbatim_stays (k : Syntax.VerbatimKind) (pos : Nat) :
    Stays rules c P (makeVerbatim k pos) :=
  .look lastStop_stays fun _ => .look (sourceText_stays _ _) fun _ => make_stays _ _

theorem tokenNode_passes (h : ∀ p, P p → p.kind ≠ .endOfFile) : Passes rules c P tokenNode :=
  .look tokenPos_stays fun _ => .look kind_looks fun _ =>
    .passing (advance_passes fun p hp => h p hp.1.1) fun _ => (make_stays _ _).reads

theorem tokenNode_reads : Reads rules c P tokenNode :=
  .look tokenPos_stays fun _ => .look kind_looks fun _ => .bind advance_reads fun _ =>
    (make_stays _ _).reads

theorem endStatement_reads : Reads rules c P endStatement := by
  refine (accept_tries (by decide)).ite_not (.pure id) ?_
  refine .look canEndStatement_stays fun _ => .ite (fun _ => ?_) fun _ => .pure id
  exact .bind (expect_tries (by decide)).reads fun _ => .pure id

theorem nameNode_passes (h : ∀ p, P p → p.kind ≠ .endOfFile) : Passes rules c P nameNode :=
  .look tokenPos_stays fun _ => .look tokenValue_stays fun _ =>
    .passing (advance_passes fun p hp => h p hp.1.1) fun _ => (make_stays _ _).reads

theorem nameNode_reads : Reads rules c P nameNode :=
  .look tokenPos_stays fun _ => .look tokenValue_stays fun _ => .bind advance_reads fun _ =>
    (make_stays _ _).reads

theorem Spot.kind_ne_endOfFile {p : Spot} (h : p.isName = true) : p.kind ≠ .endOfFile := by
  rintro hend
  have hno : Kind.isIdentifierLike .endOfFile = false := by decide
  simp [Spot.isName, hend, hno] at h

theorem identifier_passes (h : ∀ p, P p → p.isName = true) : Passes rules c P identifier := by
  refine .look atIdentifier?_looks fun b => .ite (fun _ => ?_) fun hb => .absurd fun p hp => ?_
  · exact nameNode_passes fun p hp => Spot.kind_ne_endOfFile (h p hp.1)
  · exact hb (hp.2.trans (h p hp.1))

theorem identifier_reads : Reads rules c P identifier :=
  .look atIdentifier?_looks fun _ => .ite (fun _ => nameNode_reads) fun _ =>
    .bind (errorHere_stays _).reads fun _ => .pure id

theorem memberName_reads : Reads rules c P memberName := by
  refine .look kind_looks fun k => .ite (fun _ => ?_) fun _ => .ite (fun _ => nameNode_reads)
    fun _ => .bind (errorHere_stays _).reads fun _ => .pure id
  exact .look tokenPos_stays fun _ => .look tokenValue_stays fun _ => .bind advance_reads fun _ =>
    (make_stays _ _).reads

theorem literal_passes (h : ∀ p, P p → p.kind ≠ .endOfFile) : Passes rules c P literal :=
  .look tokenPos_stays fun _ => .look kind_looks fun _ => .look get_stays fun _ =>
    .passing (advance_passes fun p hp => h p hp.1.1.1) fun _ => (make_stays _ _).reads

theorem literal_reads : Reads rules c P literal :=
  .look tokenPos_stays fun _ => .look kind_looks fun _ => .look get_stays fun _ =>
    .bind advance_reads fun _ => (make_stays _ _).reads

/-! ### Expressions inside other rules -/

theorem assignmentAllowingIn_reads :
    Reads rules (c + 5) P (assignmentAllowingIn rules) := by
  unfold assignmentAllowingIn allowingIn
  exact inContext_reads rules_assignment

theorem expressionAllowingIn_reads :
    Reads rules (c + 6) P (expressionAllowingIn rules) := by
  unfold expressionAllowingIn allowingIn
  exact inContext_reads rules_expression

theorem optionalValue_reads : Reads rules c P (optionalValue rules) :=
  (accept_tries (by decide)).ite assignmentAllowingIn_reads (.pure id)

theorem propertyName_reads : Reads rules c P (propertyName rules) := by
  refine .look kind_looks fun k => .ite (fun _ => literal_reads) fun _ => .ite (fun h => ?_)
    fun _ => memberName_reads
  refine .look tokenPos_stays fun _ => .passing (advance_passes fun p hp => ?_) fun _ =>
    .bind assignmentAllowingIn_reads fun _ => .bind (expect_tries (by decide)).reads fun _ =>
    (make_stays _ _).reads
  simp [hp.1.2, h]

/-! ### Binding patterns -/

theorem hole_passes (h : ∀ p, P p → p.kind = .comma) : Passes rules c P hole := by
  refine .look tokenPos_stays fun _ => .look (makeBetween_stays _ _ _ _) fun _ =>
    .passing (advance_passes fun p hp => ?_) fun _ => .pure id
  simp [h p hp.1.1]

theorem objectBindingElement_reads : Reads rules 8 P (objectBindingElement rules) := by
  refine .look tokenPos_stays fun _ => .bind (accept_tries (by decide)).reads fun isRest => ?_
  extract_lets named
  have hnamed (names) : Reads rules 8 Anywhere (named names) :=
    .bind optionalValue_reads fun _ => (make_stays _ _).reads
  clear_value named
  refine .ite (fun _ => ?_) fun _ => .bind propertyName_reads fun _ => ?_
  · refine .bind identifier_reads fun _ => ?_
    exact .pureBind (hnamed _)
  refine (accept_tries (by decide)).ite ?_ (.pureBind ((hnamed _).on fun _ _ => trivial))
  refine .bind rules_bindingName fun _ => ?_
  exact .pureBind (hnamed _)

theorem arrayBindingElement_reads : Reads rules 8 P (arrayBindingElement rules) :=
  .look tokenPos_stays fun _ => .bind (accept_tries (by decide)).reads fun _ =>
    .bind rules_bindingName fun _ => .bind optionalValue_reads fun _ => (make_stays _ _).reads

theorem objectPattern_reads (h : ∀ p, P p → p.kind = .openBrace) :
    Reads rules c P (objectPattern rules) := by
  refine .look tokenPos_stays fun _ => .passing (advance_passes fun p hp => by simp [h p hp.1])
    fun _ => .look tokenPos_stays fun _ => .bind (repeating_reads fun elements => ?_) fun _ =>
    .look tokenPos_stays fun _ => .bind (expect_tries (by decide)).reads fun _ =>
    (make_stays _ _).reads
  refine .look (atAny?_looks _) fun _ => .ite (fun _ => .pure id) fun _ =>
    .bind objectBindingElement_reads fun _ => ?_
  exact (accept_tries (by decide)).bind (.pure id) (.pure id)

theorem arrayPattern_reads (h : ∀ p, P p → p.kind = .openBracket) :
    Reads rules c P (arrayPattern rules) := by
  refine .look tokenPos_stays fun _ => .passing (advance_passes fun p hp => by simp [h p hp.1])
    fun _ => .look tokenPos_stays fun _ => .bind (repeating_reads fun elements => ?_) fun _ =>
    .look tokenPos_stays fun _ => .bind (expect_tries (by decide)).reads fun _ =>
    (make_stays _ _).reads
  refine .look (atAny?_looks _) fun _ => .ite (fun _ => .pure id) fun _ =>
    .look (at?_looks _) fun comma => .ite (fun h => ?_) fun _ => ?_
  · exact .passing (hole_passes fun p hp => hp.2.mp h) fun _ => .pure id
  · exact .bind arrayBindingElement_reads fun _ => (accept_tries (by decide)).bind (.pure id)
      (.pure id)

theorem bindingNameBody_reads : Reads rules c P (bindingNameBody rules) := by
  refine .look kind_looks fun k => ?_
  split
  · exact objectPattern_reads fun p hp => hp.2
  · exact arrayPattern_reads fun p hp => hp.2
  · exact identifier_reads

/-! ### Parameters -/

theorem parameterModifiers_reads : Reads rules c P parameterModifiers := by
  refine repeating_reads fun nodes => .look kind_looks fun k => .eitherLook
    (I := fun p b => b = true → p.kind ≠ .endOfFile) (fun h => ?_) (fun _ => .pure fun _ _ => nofun)
    fun isModifier => .ite (fun h => ?_) fun _ => .pure id
  · refine (nextOnLine_stays _).mono (Nat.le_refl c) (fun _ => id) fun p _ hp _ _ hend => ?_
    simp [← hp.2, hend, isParameterModifier] at h
  · exact .passing (tokenNode_passes fun p hp => hp.2 h) fun _ => .pure id

theorem parameterName_reads : Reads rules (c + 1) P (parameterName rules) :=
  .look (at?_looks _) fun _ => .ite (fun _ => .look tokenPos_stays fun _ =>
    .bind advance_reads fun _ => (make_stays _ _).reads) fun _ => rules_bindingName

theorem parameter_reads : Reads rules (c + 1) P (parameter rules) :=
  .look tokenPos_stays fun _ => .bind parameterModifiers_reads fun _ =>
    .bind (accept_tries (by decide)).reads fun _ => .bind parameterName_reads fun _ =>
    .bind (accept_tries (by decide)).reads fun _ => .bind declaredType_reads fun _ =>
    .bind optionalValue_reads fun _ => (make_stays _ _).reads

theorem parameterList_goes :
    Goes rules (c + 1) P (parameterList rules) fun _ => ∀ p, P p → p.kind = .openParen := by
  refine .look tokenPos_stays fun _ => ((expect_tries (by decide)).starting (d := 1) (fun _ => ?_)
    (.inl (Nat.le_add_left 1 c)) (by decide)).mono (Nat.le_refl _) (fun _ => id)
    fun _ h p hp => h p hp.1
  refine .bind (repeating_reads fun ⟨nodes, comma⟩ => ?_) fun ⟨nodes, comma⟩ =>
    .bind (expect_tries (by decide)).reads fun _ => .bind lastStop_stays.reads fun _ => .pure id
  refine .look (atAny?_looks _) fun _ => .ite (fun _ => .pure id) fun _ =>
    .look tokenPos_stays fun before => .bind parameter_reads fun _ =>
    (accept_tries (by decide)).ite_not ?_ (.pure id)
  exact .look tokenPos_stays fun now => .ite (fun _ => .pure id) fun _ => .pure id

theorem parameterList_reads : Reads rules (c + 1) P (parameterList rules) :=
  parameterList_goes.reads

/-! ### The rest of a function -/

theorem functionBlock_reads (h : ∀ p, P p → p.kind = .openBrace) {isAsync isGenerator : Bool} :
    Reads rules (c + 1) P (functionBlock rules isAsync isGenerator) := by
  unfold functionBlock inFunction
  exact (inContext_goes (Q := On .openBrace) (rules_block_passes fun _ => id) h).reads

section Rest

variable {k : FunctionKind} {pos : Nat} {modifiers : Option NodeList} {isAsync isGenerator : Bool}
  {name : Option NodeId}

theorem functionRest_reads :
    Reads rules (c + 1) P (functionRest rules k pos modifiers isAsync isGenerator name) := by
  refine .bind typeParameters_reads fun _ => .bind (inContext_reads parameterList_reads) fun _ =>
    .bind resultType_reads fun _ => .look (at?_looks _) fun brace => ?_
  extract_lets finish
  have hfinish (body) : Reads rules (c + 1) Anywhere (finish body) := (make_stays _ _).reads
  clear_value finish
  refine .ite (fun h => .bind (functionBlock_reads fun p hp => hp.2.mp h) hfinish) fun _ =>
    .bind endStatement_reads fun _ => .pureBind (hfinish _)

theorem methodRest_reads :
    Reads rules (c + 1) P (methodRest rules k pos modifiers isAsync isGenerator name) :=
  .bind (accept_tries (by decide)).reads fun _ => functionRest_reads

end Rest

theorem accessorHere?_stays : Stays rules c P accessorHere? := by
  refine .look kind_looks fun k => ?_
  split
  · refine .look (lookAhead_stays ?_) fun named => .pure fun _ _ => trivial
    exact .bind advance_reads fun _ => .bind kind_looks.reads fun _ => .pure id
  · exact .pure fun _ _ => trivial

theorem acceptMethodAsync_reads : Reads rules c P acceptMethodAsync := by
  refine .look (at?_looks _) fun _ => .ite (fun _ => .look (nextOnLine_stays _) fun _ => ?_)
    fun _ => .pure id
  exact .ite (fun _ => .bind advance_reads fun _ => .pure id) fun _ => .pure id

end Unchain.Grammar
