import Unchain.Proofs.Grammar.SourceFile
import Unchain.Proofs.Scoping.Statements

/-!
# Every text has a calm tree

Every rule finds what it makes, by induction on the fuel for nested rules
(`scopes_run`), and the first token of a text starts with a tree that has no
nodes. So the tree of a text is calm, with errors or without them
(`ofSource_calm`).
-/

namespace Unchain.Grammar

open Syntax (NodeId NodeList Tree)
open Token (Cursor)

variable {text : List Char}

/-! ### The rules find what they make -/

theorem hushes_run_succ {fuel : Nat} (hr : Scopes text (run fuel)) {rule : Rule}
    (hsilent : rule.isSilent = false) (hvocal : rule.isVocal = false) :
    Hushes text (fun c => rule.Suits c.kind) (run (fuel + 1) rule) Option.toList := by
  intro F
  cases rule with
  | expression => exact expressionBody_hushes hr F
  | assignment => exact nested_gathers (assignmentBody_hushes hr F) (.of_eq (by simp))
  | binary level => exact binaryBody_hushes hr F
  | unary => exact unaryBody_hushes hr F
  | leftHand => exact leftHandBody_hushes hr F
  | construction => exact constructionBody_hushes hr (fun c hc => hc) F
  | bindingName => exact bindingNameBody_hushes hr F
  | statement | block => exact nomatch hvocal
  | type | union | resultType | typeArguments | templateRest => exact nomatch hsilent

theorem lines_run_succ {fuel : Nat} (hr : Scopes text (run fuel)) {rule : Rule}
    (hvocal : rule.isVocal = true) : Lines text AnyToken (run (fuel + 1) rule) Option.toList := by
  intro F
  cases rule with
  | statement => exact nested_gathers (statementBody_lines hr F) (.of_eq (by simp))
  | block => exact blockBody_lines hr F
  | _ => exact nomatch hvocal

theorem scopes_run (text : List Char) (fuel : Nat) : Scopes text (run fuel) := by
  induction fuel with
  | zero =>
    refine ⟨places_run text 0, fun _ _ _ => ?_, fun _ _ => ?_⟩
    · exact fun _ _ _ _ hrun => nomatch hrun
    · exact fun _ _ _ _ hrun => nomatch hrun
  | succ fuel ih => exact ⟨places_run text (fuel + 1), hushes_run_succ ih, lines_run_succ ih⟩

/-! ### The whole text -/

section Rules

variable {rules : Rules} (hr : Scopes text rules) {P : Cursor → Prop}
include hr

theorem topStatementInto_gathers {F : Findings} {nodes : Array NodeId} :
    Gathers text P (F.lined nodes.toList) (topStatementInto rules nodes)
      fun nodes => F.lined nodes.toList := by
  refine .ask (at?_asks _) fun _ => .ite (fun _ => ?_) fun _ => statementInto_gathers hr
  exact (errorHere_skips _).finds.bind fun _ => advance_skips.finds.bind fun _ => .pure (.refl _)

theorem topLevel_lines : Lines text P (topLevel rules) NodeList.nodes := by
  intro F
  refine .ask tokenPos_asks fun _ => .bind (G := fun nodes => F.lined nodes.toList)
    (.loop (.of_eq (by simp)) fun nodes => ?_) fun nodes =>
      .ask tokenPos_asks fun _ => .pure (.refl _)
  refine .ask (at?_asks _) fun _ => .ite (fun _ => .pure (.refl _)) fun _ => ?_
  exact (topStatementInto_gathers hr).bind fun nodes => .pure (.refl _)

omit hr in
/-- The end of a text becomes a node that is no part of the row, wherever it is. -/
theorem makeBetween_endOfFile_gathers {F : Findings} {pos stop : Nat} {flags : Syntax.Flags} :
    Gathers text P F (makeBetween (.token .endOfFile) pos stop flags) fun _ => F := by
  intro s a s' hs hrun
  obtain ⟨rfl, rfl⟩ := Prod.mk.inj (Option.some.inj hrun)
  have hmoves := hs.add (.token .endOfFile) pos stop flags
  refine ⟨hmoves, fun _ hF => hF.later hmoves (G := .opened 0) ?_⟩
  exact Findings.holds_opened (hF.calm.add ⟨nofun, nofun, .nil⟩) (hF.names.add nofun)
    (Nat.zero_le _)

theorem sourceFileRest_gathers {fileName : String} :
    Gathers text P (.opened 0) (do
      let statements ← topLevel rules
      let stop ← tokenStop
      let endOfFile ← makeBetween (.token .endOfFile) stop stop {}
      makeBetween (.sourceFile fileName statements endOfFile) 0 stop {})
      fun id => ⟨0, [], id.toList⟩ := by
  refine (topLevel_lines hr _).bind fun statements => .ask tokenStop_asks fun stop =>
    makeBetween_endOfFile_gathers.bind fun endOfFile => ?_
  exact makeBetween_statement [] [] rfl (List.nil_subset _)
    (by simp [Syntax.Data.children]) (List.nil_subset _) (List.nil_subset _)

end Rules

/-- Before the first token nothing is found. -/
theorem holds_advance_ofText {s : State} (h : advance.run (.ofText text) = some ((), s)) :
    (Findings.opened 0).Holds s := by
  obtain rfl := (Prod.mk.inj (Option.some.inj h)).2
  have hnone (id : NodeId) (n : Syntax.Node) : (State.ofText text).tree.node? id ≠ some n := by
    simp [State.ofText, Tree.node?]
  exact Findings.holds_opened (fun id n hn => (hnone id n hn).elim)
    (fun id n hn => (hnone id n hn).elim) (Nat.zero_le _)

theorem calm_of_run_sourceFile {fuel : Nat} {fileName : String} {root : Option NodeId} {s : State}
    (hrun : (sourceFile (run fuel) fileName).run (.ofText text) = some (root, s)) :
    s.tree.Calm := by
  obtain ⟨_, s₁, hadvance, hrest⟩ := of_run_bind hrun
  obtain ⟨hfits, -⟩ := fits_advance_ofText True hadvance
  obtain ⟨-, hholds⟩ := sourceFileRest_gathers (scopes_run text fuel) (P := AnyToken)
    s₁ root s hfits hrest
  exact (hholds trivial (holds_advance_ofText hadvance)).calm

end Unchain.Grammar

namespace Unchain.SourceTree

/-- Whatever the text is, its statements stand where statements can stand, in its order. -/
theorem ofSource_calm (fileName source : String) : (ofSource fileName source).tree.Calm := by
  obtain ⟨root, s, hrun, -⟩ := Grammar.run_sourceFile fileName source.toList
  have hread : (ofSource fileName source).tree = s.tree := by
    simp only [ofSource, hrun, Option.getD_some]
  rw [hread]
  exact Grammar.calm_of_run_sourceFile hrun

end Unchain.SourceTree
