import Unchain.Proofs.Grammar.SourceFile
import Unchain.Proofs.Placing.Statements

/-!
# Trees are nested like their texts

Every rule places what it reads, by induction on the fuel for nested rules
(`places_run`). So the tree of a text without errors is nested like the text,
from the root, which spans it, down to the names (`ofSource_nested`). With
errors this can fail: the block that is missing after `try` at the end of a text
would start behind the spaces there and end before them. But the nodes of every
text form a tree (`ofSource_branching`).
-/

namespace Unchain.Grammar

open Syntax (NodeId NodeList Tree)
open Token (Cursor Kind Scanner)

variable {text : List Char}

/-! ### The rules place what they read -/

theorem builds_run_succ {fuel : Nat} (hr : Places text (run fuel)) {rule : Rule}
    (hrule : rule.isSilent = false) :
    Yields text (fun c => rule.Suits c.kind) (run (fuel + 1) rule) Option.toList := by
  intro A
  cases rule with
  | expression => exact expressionBody_yields hr A
  | assignment => exact nested_builds (assignmentBody_yields hr A)
  | binary level => exact binaryBody_yields hr A
  | unary => exact unaryBody_yields hr A
  | leftHand => exact leftHandBody_yields hr A
  | construction => exact constructionBody_yields hr (fun c hc => hc) A
  | statement => exact nested_builds (statementBody_yields hr A)
  | block => exact blockBody_yields hr A
  | bindingName => exact bindingNameBody_yields hr A
  | type | union | resultType | typeArguments | templateRest => exact nomatch hrule

theorem skips_run_succ {fuel : Nat} (hr : Places text (run fuel)) {rule : Rule}
    (hrule : rule.isSilent = true) : Skips text (run (fuel + 1) rule) fun _ => True := by
  cases rule with
  | type => exact nested_skips (typeBody_skips hr)
  | union => exact unionBody_skips hr
  | resultType => exact resultTypeBody_skips hr
  | typeArguments => exact typeArgumentsBody_skips hr
  | templateRest => exact .passing (skipTemplate_skips hr) fun _ => .pure id
  | expression | assignment | binary | unary | leftHand | construction | statement | block
    | bindingName => exact nomatch hrule

theorem places_run (text : List Char) (fuel : Nat) : Places text (run fuel) := by
  induction fuel with
  | zero =>
    refine ⟨fun _ => ?_, fun _ _ => ?_, fun _ hrun => nomatch hrun⟩
    · exact fun _ _ _ _ hrun => nomatch hrun
    · exact fun _ _ _ _ hrun => nomatch hrun
  | succ fuel ih =>
    exact ⟨skips_run_succ ih, builds_run_succ ih, mayBind_of_run_bindingNameBody⟩

/-! ### The whole text -/

section Rules

variable {rules : Rules} (hr : Places text rules) {P : Cursor → Prop}
  {pos : Nat} {ids : List NodeId} {outer : List (Nat × List NodeId)}
include hr

theorem topStatementInto_builds {nodes : Array NodeId} :
    Builds text P ⟨.start, pos, ids ++ nodes.toList, outer⟩ (topStatementInto rules nodes)
      fun nodes => ⟨.start, pos, ids ++ nodes.toList, outer⟩ := by
  refine .ask (at?_asks _) fun _ => .ite (fun _ => ?_) fun _ =>
    (statementInto_builds hr).after fun _ => .start
  exact errorHere_builds.bind fun _ => advance_skips.keeps.bind fun _ => .pure .start

theorem topLevel_builds :
    Builds text P ⟨.start, pos, ids, outer⟩ (topLevel rules)
      fun statements => ⟨.start, pos, ids ++ statements.nodes, outer⟩ := by
  refine .ask tokenPos_asks fun _ => .bind
    (B := fun nodes => ⟨.start, pos, ids ++ nodes.toList, outer⟩)
    (.loop (.of_eq (by simp)) fun nodes => ?_) fun nodes =>
      .ask tokenPos_asks fun _ => .pure (.refl _)
  refine .ask (at?_asks _) fun _ => .ite (fun _ => .pure (.refl _)) fun _ => ?_
  exact (topStatementInto_builds hr).bind fun nodes => .pure (.refl _)

end Rules

/-- The reader on the first token of a text. -/
theorem fits_advance_ofText {s : State} (clean : Prop)
    (h : advance.run (.ofText text) = some ((), s)) :
    Fits text s ∧ Stage.Holds clean text ⟨.start, 0, [], []⟩ s := by
  obtain rfl := (Prod.mk.inj (Option.some.inj h)).2
  obtain ⟨hon, -⟩ := Scanner.onToken_scan (Scanner.endsIn_ofText text true)
  refine ⟨⟨hon, Nat.zero_le _, Text.isCut_zero text⟩, fun id n hn => ?_, trivial,
    Text.isCut_zero text, fun _ => Nat.zero_le _, nofun, trivial⟩
  simp [State.ofText, Tree.node?] at hn

/-- The token at the end of a text is nothing. -/
theorem start_eq_stop_of_endOfFile {c : Cursor} (hc : c.OnToken text) (hk : c.kind = .endOfFile) :
    c.start = c.stop := by
  obtain ⟨before, htext, hstart⟩ := hc.starts
  rw [hstart, (hc.of_endOfFile hk).2, htext, hc.kind_eq_endOfFile_iff.mp hk, List.append_nil]

section End

variable {pos stop : Nat} {ids : List NodeId} {outer : List (Nat × List NodeId)}

/-- The end of a text becomes a node that is nothing. -/
theorem makeBetween_endOfFile_builds :
    Builds text (fun c => c.start = stop) ⟨.start, pos, ids, outer⟩
      (makeBetween (.token .endOfFile) stop stop {})
      fun id => ⟨.start, pos, ids ++ id.toList, outer⟩ :=
  .opened (fun _ hc => hc) <| (makeBefore_builds (.of_children rfl rfl rfl) fun _ hc => hc).after
    fun _ => .merge

/-- The end of a text is a part of its source file, but no child. -/
theorem makeBetween_sourceFile_builds {fileName : String} {statements : NodeList}
    {endOfFile : Option NodeId} :
    Builds text (fun c => c.start = stop) ⟨.start, 0, statements.nodes ++ endOfFile.toList, outer⟩
      (makeBetween (.sourceFile fileName statements endOfFile) 0 stop {})
      fun id => ⟨.start, 0, id.toList, outer⟩ :=
  makeBefore_builds ⟨fun _ => .rfl, List.sublist_append_left _ _, rfl⟩ fun _ hc => hc

end End

/-- A source file takes up its statements and the end of the text, where the reader is then. -/
theorem holds_of_run_sourceFile {fuel : Nat} {fileName : String} {root : Option NodeId} {s : State}
    {clean : Prop} (hrun : (sourceFile (run fuel) fileName).run (.ofText text) = some (root, s))
    (hend : s.scanner.cursor.kind = .endOfFile) (hclean : clean → s.errors = #[]) :
    Stage.Holds clean text ⟨.start, 0, root.toList, []⟩ s := by
  obtain ⟨_, s₁, hadvance, hrun⟩ := of_run_bind hrun
  obtain ⟨statements, s₂, htop, hrun⟩ := of_run_bind hrun
  obtain ⟨stop, s₃, hstop, hrun⟩ := of_run_bind hrun
  obtain ⟨rfl, rfl⟩ := Prod.mk.inj (Option.some.inj hstop)
  obtain ⟨endOfFile, s₄, hlast, hroot⟩ := of_run_bind hrun
  obtain ⟨hfits, hstart⟩ := fits_advance_ofText clean hadvance
  obtain ⟨htopMoves, htopHolds⟩ :=
    topLevel_builds (places_run text fuel) (P := AnyToken) s₁ statements s₂ hfits htop
  obtain ⟨hlastMoves, hlastHolds⟩ :=
    makeBetween_endOfFile_builds s₂ endOfFile s₄ htopMoves.fits hlast
  obtain ⟨hrootMoves, hrootHolds⟩ := makeBetween_sourceFile_builds s₄ root s hlastMoves.fits hroot
  -- Making the last two nodes does not move the reader.
  have hcursor₄ : s₄.scanner = s₂.scanner := by
    obtain rfl := (Prod.mk.inj (Option.some.inj hlast)).2
    rfl
  have hcursor : s.scanner = s₄.scanner := by
    obtain rfl := (Prod.mk.inj (Option.some.inj hroot)).2
    rfl
  rw [hcursor, hcursor₄] at hend
  have hempty := start_eq_stop_of_endOfFile htopMoves.fits.onToken hend
  have hclean₄ := hrootMoves.errors_eq_empty hclean
  have hclean₂ := hlastMoves.errors_eq_empty hclean₄
  refine hrootHolds hclean ?_ (hlastHolds hclean₄ hempty (htopHolds hclean₂ trivial hstart))
  rw [hcursor₄]
  exact hempty

end Unchain.Grammar

namespace Unchain.SourceTree

open Syntax (NodeId)

theorem errors_eq_empty_of_allErrors {s : Grammar.State} (h : Grammar.allErrors s = []) :
    s.errors = #[] := by
  have hperm := Text.stableSort_perm (fun a b => a.start < b.start)
    (s.errors ++ s.scanner.errors).toList
  rw [show Text.stableSort _ _ = [] from h, List.nil_perm, Array.toList_append] at hperm
  exact Array.toList_eq_nil_iff.mp (List.append_eq_nil_iff.mp hperm).1

/-- Reading a text leaves the root of its tree, which spans the text; the nodes below it are where
they should be if there are no errors. -/
theorem exists_holds_of_clean (fileName source : String) {clean : Prop}
    (h : clean → (ofSource fileName source).errors = []) :
    let read := ofSource fileName source
    ∃ s : Grammar.State, read.tree = s.tree ∧
      Grammar.Stage.Holds clean source.toList ⟨.start, 0, [read.root], []⟩ s ∧
      ∃ statements endOfFile parent, s.tree.node? read.root = some
        { data := .sourceFile fileName statements endOfFile, pos := 0,
          stop := Text.byteLength source.toList, parent } := by
  intro read
  obtain ⟨root, s, hrun, hroot, hk, -⟩ :=
    Grammar.run_sourceFile fileName source.toList
  have hread : read = ⟨fileName, source, s.tree, root, Grammar.allErrors s⟩ := by
    simp only [read, ofSource, hrun, Option.getD_some]
  have herrors : Grammar.allErrors s = read.errors := by rw [hread]
  have hclean (hc : clean) : s.errors = #[] :=
    errors_eq_empty_of_allErrors (herrors.trans (h hc))
  rw [hread]
  exact ⟨s, rfl, Grammar.holds_of_run_sourceFile hrun hk hclean, hroot⟩

/-- Without errors all nodes are where they should be. -/
theorem exists_holds {fileName source : String} (h : (ofSource fileName source).errors = []) :
    let read := ofSource fileName source
    ∃ s : Grammar.State, read.tree = s.tree ∧
      Grammar.Stage.Holds True source.toList ⟨.start, 0, [read.root], []⟩ s ∧
      ∃ statements endOfFile parent, s.tree.node? read.root = some
        { data := .sourceFile fileName statements endOfFile, pos := 0,
          stop := Text.byteLength source.toList, parent } :=
  exists_holds_of_clean fileName source fun _ => h

/-- The tree of a text without errors is nested like the text, and its root spans it. -/
theorem ofSource_nested (fileName source : String) (h : (ofSource fileName source).errors = []) :
    let read := ofSource fileName source
    read.tree.Nested source.toList ∧ ∃ n, read.tree.node? read.root = some n ∧ n.parent = none ∧
      n.pos = 0 ∧ n.stop = Text.byteLength source.toList := by
  intro read
  obtain ⟨s, htree, hholds, statements, endOfFile, parent, hroot⟩ := exists_holds h
  rw [htree]
  refine ⟨hholds.placed.nested, _, hroot, ?_, rfl, rfl⟩
  obtain ⟨m, hm, hparent, -⟩ := hholds.unfinished.2.1
  obtain rfl := Option.some.inj (hroot.symm.trans hm)
  exact hparent

/-- A text in which a type stands before its expression. -/
theorem ofSource_nested_assertion :
    (ofSource "a.ts" "f(<T>x)").errors = [] ∧
      let read := ofSource "a.ts" "f(<T>x)"
      read.tree.Nested "f(<T>x)".toList ∧ ∃ n, read.tree.node? read.root = some n ∧
        n.parent = none ∧ n.pos = 0 ∧ n.stop = Text.byteLength "f(<T>x)".toList :=
  have h : (ofSource "a.ts" "f(<T>x)").errors = [] := by decide +kernel
  ⟨h, ofSource_nested "a.ts" "f(<T>x)" h⟩

/-- Whatever the text is, its nodes hold older ones, they form a tree, and none was made from
another. -/
theorem ofSource_branching (fileName source : String) :
    let read := ofSource fileName source
    read.tree.BottomUp ∧ read.tree.Branching ∧ ∀ id, read.tree.originOf id = id := by
  intro read
  obtain ⟨s, htree, hholds, -⟩ := exists_holds_of_clean fileName source False.elim
  rw [htree]
  exact ⟨hholds.placed.bottomUp, hholds.placed.branching, hholds.placed.originOf⟩

/-- Whatever the text is, functions and parameters are called as they may be. -/
theorem ofSource_isNamed (fileName source : String) {id : NodeId} {d : Syntax.Data}
    (hd : (ofSource fileName source).tree.data? id = some d) :
    (ofSource fileName source).tree.IsNamed d := by
  obtain ⟨s, htree, hholds, -⟩ := exists_holds_of_clean fileName source False.elim
  rw [htree] at hd ⊢
  exact hholds.placed.isNamed hd

end Unchain.SourceTree
