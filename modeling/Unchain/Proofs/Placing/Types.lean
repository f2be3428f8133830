import Unchain.Proofs.Placing.Stages

/-!
# Types are read over silently

The grammar of types makes no node, and a type is sure to pass a token or to
report an error. The nodes for types are made of what was read over
(`typeNode_yields`).
-/

namespace Unchain.Grammar

open Syntax (NodeId)
open Token (Cursor Kind)

variable {text : List Char} {rules : Rules} {P : Cursor → Prop} {A : Stage}

section Rules

variable (hr : Places text rules)
include hr

/-! ### Brackets and templates -/

theorem templateRest_skips {N : Option NodeId → Prop} : Skips text (rules .templateRest) N :=
  (hr.silent rfl).any

theorem skipTemplate_skips : Skips text (skipTemplate rules) fun _ => True := by
  refine .passing advance_skips fun _ =>
    .bind (repeating_skips (N := fun _ => False) fun depth => ?_) fun _ => .pure id
  refine .ask kind_asks fun k => ?_
  split
  · exact .pure id
  · exact .bind (templateRest_skips hr (N := fun _ => False)) fun _ => .pure id
  · exact .bind advance_skips fun _ => .pure id
  · refine .ite (fun _ => ?_) fun _ => .bind advance_skips fun _ => .pure id
    refine .bind (rescan_skips Token.Scanner.rescans_rescanTemplate) fun _ => ?_
    refine .ask (at?_asks _) fun last => .bind advance_skips fun _ => ?_
    cases last <;> exact .pure id
  · exact .bind advance_skips fun _ => .pure id

theorem skipBalanced_skips (opening closing : Kind) :
    Skips text (skipBalanced rules opening closing) fun _ => True := by
  refine .passing (expect_skips opening) fun _ => .ite (fun _ => ?_) fun _ => .pure id
  refine .bind (repeating_skips (N := fun _ => False) fun depth => ?_) fun _ => .pure id
  refine .ask kind_asks fun k => .ite (fun _ => ?_) fun _ => .ite (fun _ => ?_) fun _ =>
    .ite (fun _ => ?_) fun _ => .ite (fun _ => ?_) fun _ => ?_
  · exact .bind (expect_skips closing) fun _ => .pure id
  · exact .bind (templateRest_skips hr (N := fun _ => False)) fun _ => .pure id
  · exact .bind advance_skips fun _ => .pure id
  · refine .bind advance_skips fun _ => ?_
    split <;> exact .pure id
  · exact .bind advance_skips fun _ => .pure id

theorem skipParenthesized_skips : Skips text (skipParenthesized rules) fun _ => True :=
  skipBalanced_skips hr _ _

/-! ### Types of functions -/

theorem skipType_skips : Skips text (skipType rules) fun _ => True :=
  .passing (hr.silent rfl) fun _ => .pure id

theorem skipUnion_skips : Skips text (skipUnion rules) fun _ => True :=
  .passing (hr.silent rfl) fun _ => .pure id

theorem skipTypeArguments_skips : Skips text (skipTypeArguments rules) fun _ => True :=
  .passing (hr.silent rfl) fun _ => .pure id

theorem atFunctionType?_asks : Asks text (atFunctionType? rules) fun _ _ => True := by
  refine .next kind_asks fun k => ?_
  split
  · exact .pure fun _ => trivial
  · exact .pure fun _ => trivial
  · exact nextIs_asks _
  · refine lookAhead_asks (N := fun _ => False) ?_
    exact .bind (skipParenthesized_skips hr) fun _ => (at?_asks _).skips
  · exact .pure fun _ => trivial

theorem functionTypeRest_skips : Skips text (functionTypeRest rules) fun _ => True := by
  refine .ask (at?_asks _) fun _ => .optional (skipTypeArguments_skips hr) ?_
  exact .passing (skipParenthesized_skips hr) fun _ => .bind (expect_skips _) fun _ =>
    .bind (hr.silent rfl) fun _ => .pure id

theorem functionTypeBody_skips : Skips text (functionTypeBody rules) fun _ => True :=
  .bind (accept_skips _) fun _ => .bind (accept_skips _) fun _ => functionTypeRest_skips hr

/-! ### Types -/

theorem typeBody_skips : Skips text (typeBody rules) fun _ => True := by
  refine .ask (atFunctionType?_asks hr) fun _ => .ite (fun _ => ?_) fun _ => ?_
  · exact .passing (functionTypeBody_skips hr) fun _ => .pure id
  refine .passing (skipUnion_skips hr) fun _ => .ask (at?_asks _) fun _ =>
    .ask lineBreakBefore_asks fun _ => .ite (fun _ => ?_) fun _ => .pure id
  refine .bind advance_skips fun _ => .bind (skipUnion_skips hr) fun _ =>
    .bind (expect_skips _) fun _ => .ite (fun _ => ?_) fun _ => .pure id
  exact .bind (skipType_skips hr) fun _ => .bind (expect_skips _) fun _ =>
    .bind (skipType_skips hr) fun _ => .pure id

theorem resultTypeBody_skips : Skips text (resultTypeBody rules) fun _ => True := by
  refine .ask (atWord?_asks _) fun word => ?_
  have hrest (asserts : Bool) : Skips text (do
      if asserts then
        advance
        advance
        if ← atWord? "is" then
          advance
          skipType rules
      else skipType rules
      return (none : Option NodeId)) fun _ => True := by
    refine .ite (fun _ => ?_) fun _ => .passing (skipType_skips hr) fun _ => .pure id
    refine .passing advance_skips fun _ => .bind advance_skips fun _ => .ask (atWord?_asks _)
      fun _ => .ite (fun _ => ?_) fun _ => .pure id
    exact .bind advance_skips fun _ => .bind (skipType_skips hr) fun _ => .pure id
  exact .ite (fun _ => .ask (nextOnLine_asks _) hrest) fun _ => .pureBind (hrest false)

theorem optionalTypeArguments_skips : Skips text (optionalTypeArguments rules) fun _ => False :=
  .ask (at?_asks _) fun _ => .ask lineBreakBefore_asks fun _ =>
    .ite (fun _ => (skipTypeArguments_skips hr).any) fun _ => .pure id

theorem entityName_skips : Skips text (entityName rules) fun _ => True := by
  refine .passing advance_skips fun _ => .bind (repeating_skips (N := fun _ => False) fun _ => ?_)
    fun _ => optionalTypeArguments_skips hr
  refine .ask (at?_asks _) fun _ => .ite (fun _ => ?_) fun _ => .pure id
  exact .bind advance_skips fun _ => .bind advance_skips fun _ => .pure id

theorem primaryType_skips : Skips text (primaryType rules) fun _ => True := by
  refine .ask kind_asks fun k => ?_
  split
  · exact .passing advance_skips fun _ => .bind (skipType_skips hr) fun _ =>
      .bind (expect_skips _) fun _ => .pure id
  · exact skipBalanced_skips hr _ _
  · exact skipBalanced_skips hr _ _
  · exact .passing advance_skips fun _ => (entityName_skips hr).any
  · refine .passing advance_skips fun _ => .bind (skipParenthesized_skips hr) fun _ =>
      .bind (repeating_skips (N := fun _ => False) fun _ => ?_) fun _ =>
      optionalTypeArguments_skips hr
    refine .bind (accept_skips _) fun _ => .ite (fun _ => ?_) fun _ => .pure id
    exact .bind advance_skips fun _ => .pure id
  · exact .passing advance_skips fun _ => advance_skips.any
  · exact .passing (templateRest_skips hr) fun _ => .pure id
  all_goals try exact advance_skips
  · exact .ite (fun _ => entityName_skips hr) fun _ => errorHere_skips _

theorem postfixType_skips : Skips text (postfixType rules) fun _ => True := by
  refine .passing (primaryType_skips hr) fun _ => repeating_skips fun _ => ?_
  refine .ask (at?_asks _) fun _ => .ask lineBreakBefore_asks fun _ => .ite (fun _ => ?_)
    fun _ => ?_
  · refine .bind advance_skips fun _ => .ask (at?_asks _) fun _ => ?_
    exact .optional (skipType_skips hr) <| .bind (expect_skips _) fun _ => .pure id
  · refine .ask (atWord?_asks _) fun _ => .ask lineBreakBefore_asks fun _ => .ite (fun _ => ?_)
      fun _ => .pure id
    exact .bind advance_skips fun _ => .bind (skipType_skips hr) fun _ => .pure id

theorem inferredConstraint_skips : Skips text (inferredConstraint rules) fun _ => False := by
  refine .ask (at?_asks _) fun _ => .ite (fun _ => ?_) fun _ => .pure id
  refine .ask (lookAhead_asks (N := fun _ => False) ?_) fun _ => .ite (fun _ => ?_) fun _ =>
    .pure id
  · exact .bind advance_skips fun _ => .bind (skipUnion_skips hr) fun _ => .ask (at?_asks _)
      fun _ => .pure id
  · exact .bind advance_skips fun _ => (skipUnion_skips hr).any

/-- The words before a type may be missing, but then the type is not; an inferred type starts with
a word. -/
theorem typeOperator_skips : Skips text (typeOperator rules) fun _ => True := by
  refine .cases (repeating_skips (N := fun inferred => inferred = true) fun _ => ?_)
    (fun inferred h => ?_) fun inferred h => ?_
  · refine .ask (atAny?_asks _) fun _ => .ite (fun _ => ?_) fun _ => ?_
    · exact .bind advance_skips fun _ => .pure nofun
    refine .ask (atWord?_asks _) fun _ => .ite (fun _ => ?_) fun _ => ?_
    · exact .bind advance_skips fun _ => .pure nofun
    refine .ask (atWord?_asks _) fun _ => .ite (fun _ => ?_) fun _ => .pure nofun
    exact .passing advance_skips fun _ => .bind advance_skips fun _ =>
      .bind (inferredConstraint_skips hr) fun _ => .pure id
  · exact .ite (fun _ => (postfixType_skips hr).any) fun _ => .pure id
  · refine .ite (fun _ => postfixType_skips hr) fun hinferred => ?_
    exact absurd (by simpa using hinferred) h

theorem unionBody_skips : Skips text (unionBody rules) fun _ => True := by
  have hunion : Skips text (do
      repeating () fun _ => do
        typeOperator rules
        if ← accept .bar then return .again ()
        else if ← accept .ampersand then return .again ()
        else return .done ()
      return (none : Option NodeId)) fun _ => True := by
    refine .passing (repeating_skips (N := fun _ => True) fun _ => ?_) fun _ => .pure id
    refine .passing (typeOperator_skips hr) fun _ => .bind (accept_skips _) fun _ =>
      .ite (fun _ => .pure id) fun _ => ?_
    exact .bind (accept_skips _) fun _ => .ite (fun _ => .pure id) fun _ => .pure id
  exact .bind (accept_skips _) fun _ => .optional (accept_skips _) hunion

omit hr in
theorem typeParameterModifiers_skips : Skips text typeParameterModifiers fun _ => False := by
  refine repeating_skips fun _ => .ask (atAny?_asks _) fun word => ?_
  extract_lets modified
  have hmodified (b : Bool) : Skips text (modified b) fun turn => False := by
    refine .ite (fun _ => ?_) fun _ => .pure id
    exact .bind advance_skips fun _ => .pure id
  clear_value modified
  refine .ite (fun _ => .pureBind (hmodified true)) fun _ => ?_
  refine .ask (atWord?_asks _) fun out => .ite (fun _ => ?_) fun _ => .pureBind (hmodified false)
  exact .ask (nextOnLine_asks _) hmodified

theorem typeArgumentsBody_skips : Skips text (typeArgumentsBody rules) fun _ => True := by
  refine .passing (expect_skips _) fun _ => .ite (fun _ => ?_) fun _ => .pure id
  refine .bind (repeating_skips (N := fun _ => False) fun _ => ?_) fun _ =>
    .bind (expect_skips _) fun _ => .pure id
  refine .ask (atAny?_asks _) fun _ => .ite (fun _ => .pure id) fun _ => .ask tokenPos_asks
    fun before => .bind typeParameterModifiers_skips fun _ => .bind (skipType_skips hr) fun _ => ?_
  refine .bind (accept_skips _) fun _ => .optional (skipType_skips hr) ?_
  refine .bind (accept_skips _) fun _ => .optional (skipType_skips hr) ?_
  refine .bind (accept_skips _) fun _ => .ite (fun _ => .pure id) fun _ => ?_
  exact .ask tokenPos_asks fun _ => .ite (fun _ => .pure id) fun _ => .pure id

theorem atCallTypeArguments?_asks : Asks text (atCallTypeArguments? rules) fun _ _ => True := by
  refine .next (at?_asks _) fun _ => .ite (fun _ => ?_) fun _ => .pure fun _ => trivial
  refine lookAhead_asks (N := fun _ => False) ?_
  exact .ask errorCount_asks fun _ => .bind (skipTypeArguments_skips hr) fun _ =>
    .ask errorCount_asks fun _ => .ask (atAny?_asks _) fun _ => .pure id

/-! ### Nodes of types -/

omit hr in
/-- What was read over since `pos` becomes a node of its own. -/
theorem typeNodeFrom_builds {pos : Nat} {outer : List (Nat × List NodeId)} :
    Builds text P ⟨.last, pos, [], outer⟩ (typeNodeFrom pos)
      fun id => ⟨.last, pos, id.toList, outer⟩ := by
  refine lastStop_builds.bind fun stop => .ask (sourceText_asks _ _) fun _ => ?_
  refine makeBetween_builds (.of_children rfl rfl rfl) fun c _ hle _ => ?_
  exact Nat.max_eq_left hle

theorem typeNode_yields : Yields text P (typeNode rules) Option.toList := by
  intro A
  refine .inner fun pos => ?_
  exact (skipType_skips hr).moves.bind fun _ => typeNodeFrom_builds

theorem declaredType_adds : Adds text P (declaredType rules) Option.toList := by
  intro pos ids outer
  exact .accept (typeNode_yields hr _) (.pure (.of_eq (by simp)))

theorem resultType_adds : Adds text P (resultType rules) Option.toList := by
  intro pos ids outer
  refine .accept (.inner fun p => ?_) (.pure (.of_eq (by simp)))
  exact (hr.silent rfl).moves.bind fun _ => typeNodeFrom_builds

theorem typeArguments_yields : Yields text P (typeArguments rules) Option.toList := by
  intro A
  refine .inner fun p => ?_
  exact (skipTypeArguments_skips hr).moves.bind fun _ => typeNodeFrom_builds

/-- Type parameters may be the first thing in a construct. -/
theorem typeParameters_starts {pos : Nat} {ids : List NodeId} {outer : List (Nat × List NodeId)} :
    Builds text P ⟨.start, pos, ids, outer⟩ (typeParameters rules)
      fun id => ⟨.start, pos, ids ++ id.toList, outer⟩ := by
  refine .ask (at?_asks _) fun _ => .ite (fun _ => ?_) fun _ => .pure (.of_eq (by simp))
  exact (typeArguments_yields hr _).after fun _ => .start

theorem typeParameters_adds : Adds text P (typeParameters rules) Option.toList := by
  intro pos ids outer
  refine .ask (at?_asks _) fun _ => .ite (fun _ => typeArguments_yields hr _) fun _ => ?_
  exact .pure (.of_eq (by simp))

end Rules

end Unchain.Grammar
