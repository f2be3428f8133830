import Unchain.Proofs.Term.Operators
import Unchain.Proofs.Term.Print

/-!
# Printing and reading back

A statement that is a term is printed as the text of the term with all the
parentheses that it needs, and read back from that text without an error. What
comes back is the same term, with nodes for the parentheses
(`SourceTree.ofSource_printNode`).
-/

namespace Unchain

open Syntax (Data Node NodeId Tree)
open Token

namespace Term

open Grammar Printer

variable {s s' : State} {cs rest : List Char} {l : Lexeme} {e : Term} {fuel : Nat}

/-! ### Statements -/

/-- The token at the end of a text. -/
def endToken : Lexeme := { kind := .endOfFile, length := 0 }

theorem opens_nil : Opens [] endToken := ⟨rfl, rfl, rfl, rfl⟩

/-- No keyword announces a statement that is a term. -/
theorem run_statementBody {rules : Rules} (hk : l.kind ∈ starters) (h : Stands s cs l) :
    (statementBody rules).run s = (plainStatement rules).run s := by
  rw [statementBody, run_bind (run_tokenPos s), run_bind h.run_kind]
  simp only [starters, List.mem_cons, List.not_mem_nil, or_false] at hk
  rcases hk with hk | hk | hk | hk | hk | hk | hk | hk | hk | hk | hk | hk <;> rw [hk]

/-- A term is no label. -/
theorem run_plainStatement (rules : Rules) (he : e.Tight) (h : Before s (e.text ++ [';'])) :
    ∃ s', Reached s s' ∧ Before s' (e.text ++ [';']) ∧
      (plainStatement rules).run s = (expressionStatement rules).run s' := by
  have hfollows : Follows [';'] .semicolon [] := .closer (k := .semicolon) (by decide) []
  obtain ⟨l, hopens, hstands⟩ := h
  obtain ⟨l', hopens', hk⟩ := exists_opens he hfollows.breaksName
  obtain rfl := hopens.eq hopens'
  rw [plainStatement, run_bind (run_atIdentifier? hstands hk)]
  by_cases hname : l.kind = .identifier
  · obtain ⟨l', hsecond, hcolon⟩ := exists_opens_second he hopens hname hfollows.breaksName
      (ne_colon_of_follows hfollows (by decide))
    rw [← afterBlank_text he] at hsecond
    obtain ⟨s', hrun, hreached, hstands'⟩ := hstands.run_nextIs (by simp [hname]) hsecond .colon
    refine ⟨s', hreached, ⟨l, hopens, hstands'⟩, ?_⟩
    rw [decide_eq_true hname, if_pos rfl, run_bind hrun, decide_eq_false hcolon]
    rfl
  · exact ⟨s, hstands.sound.reached, ⟨l, hopens, hstands⟩, by rw [decide_eq_false hname]; rfl⟩

/-- A term with a semicolon is read as a statement, up to the end of the text. -/
theorem run_statement (he : e.Tight) (hbefore : Before s (e.text ++ [';']))
    (hfuel : 8 * s.left + 7 ≤ fuel) (hroom : s.depth + e.nesting + 2 ≤ Limits.grammarDepth) :
    ∃ i j s', (run fuel .statement).run s = some (some i, s') ∧ Reached s s' ∧
      Stands s' [] endToken ∧
      Holds s'.tree.part? (some i) (.expressionStatement .statement j) ∧
      Represents s'.tree.part? j e := by
  obtain ⟨n, rfl⟩ : ∃ m, fuel = m + 1 := ⟨fuel - 1, by omega⟩
  have hfollows : Follows [';'] .semicolon [] := .closer (k := .semicolon) (by decide) []
  obtain ⟨l, hopens, hstands⟩ := hbefore
  have hs : Sound { s with depth := s.depth + 1 } := ⟨hstands.sound.onToken, hstands.sound.limit⟩
  have hstands₁ := hstands.transfer hs rfl rfl rfl rfl
  obtain ⟨l', hopens', hk⟩ := exists_opens he hfollows.breaksName
  obtain rfl := hopens.eq hopens'
  obtain ⟨s₁, hreached₁, hbefore₁, hrun₁⟩ :=
    run_plainStatement (run n) he ⟨l, hopens, hstands₁⟩
  have hleft₁ : s₁.left ≤ s.left := hreached₁.left_le
  have hdepth₁ : s₁.depth = s.depth + 1 := hreached₁.depth
  have ⟨l₁, _, hstands₁'⟩ := hbefore₁
  obtain ⟨j, s₂, hrun₂, hreached₂, hnear₂, he₂⟩ := (he.legible.expression.rule hfollows (by decide)
    (by simp) (⟨hbefore₁, by omega, by omega⟩ : Ready n 6 1 s₁ e [';'])).allowingIn hstands₁'
  obtain ⟨l₂, hstands₂, hl₂, htail₂⟩ := hnear₂.exists_stands (by decide)
  obtain ⟨s₃, hrun₃, hreached₃, -, hstands₃⟩ :=
    hstands₂.run_advance (by simp [hl₂]) htail₂ opens_nil
  obtain ⟨j, rfl⟩ := he₂.exists_eq_some
  obtain ⟨i, s₄, hrun₄, hreached₄, -, hstands₄, hnode⟩ :=
    run_make hstands₃ (.expressionStatement .statement (some j)) s₁.scanner.cursor.start
  have hreached : Reached { s with depth := s.depth + 1 } s₄ :=
    ((hreached₁.trans hreached₂).trans hreached₃).trans hreached₄
  have hs₄ : Sound { s₄ with depth := s₄.depth - 1 } :=
    ⟨hstands₄.sound.onToken, hstands₄.sound.limit⟩
  have hbody : (statementBody (run n)).run { s with depth := s.depth + 1 } = some (some i, s₄) := by
    have hend : endStatement.run s₂ = some ((), s₃) := by
      rw [endStatement, run_bind (hstands₂.run_accept hl₂ hrun₃)]
      rfl
    rw [run_statementBody hk hstands₁, hrun₁, expressionStatement, run_bind (run_tokenPos s₁),
      expressionAllowingIn, run_bind hrun₂]
    show (do
      endStatement
      make (.expressionStatement .statement (some j)) s₁.scanner.cursor.start).run s₂ = _
    rw [run_bind hend, hrun₄]
  refine ⟨i, some j, _, run_nested (by omega) hbody, ?_,
    hstands₄.transfer hs₄ rfl rfl rfl rfl, hnode, he₂.grows (hreached₃.trans hreached₄).grows⟩
  exact { hreached with
    sound := hs₄
    depth := by rw [hreached.depth]; rfl }

/-! ### Whole texts -/

/-- At the top the one statement is read and then the end of the text. -/
theorem run_topLevel (he : e.Tight) (hbefore : Before s (e.text ++ [';']))
    (hfuel : 8 * s.left + 7 ≤ fuel) (hroom : s.depth + e.nesting + 2 ≤ Limits.grammarDepth) :
    ∃ i j list s', (topLevel (run fuel)).run s = some (list, s') ∧ Stands s' [] endToken ∧
      list.nodes = [i] ∧ Holds s'.tree.part? (some i) (.expressionStatement .statement j) ∧
      Represents s'.tree.part? j e := by
  have ⟨l, hopens, hstands⟩ := hbefore
  have hfollows : Follows [';'] .semicolon [] := .closer (k := .semicolon) (by decide) []
  obtain ⟨l', hopens', hk⟩ := exists_opens he hfollows.breaksName
  obtain rfl := hopens.eq hopens'
  have hall : ∀ k ∈ starters, k ≠ .endOfFile ∧ k ≠ .closeBrace := by decide
  obtain ⟨hend, hbrace⟩ := hall l.kind hk
  obtain ⟨i, j, s₁, hrun₁, hreached₁, hstands₁, hnode, he₁⟩ :=
    run_statement he hbefore hfuel hroom
  refine ⟨i, j, listOf #[i] s.scanner.cursor.start s₁.scanner.cursor.start false, s₁, ?_, hstands₁,
    rfl, hnode, he₁⟩
  have hinto : (topStatementInto (run fuel) #[]).run s = some (#[i], s₁) := by
    rw [topStatementInto, run_bind (hstands.run_at? _), decide_eq_false hbrace,
      if_neg Bool.false_ne_true, statementInto, run_bind (run_tokenPos s), run_bind hrun₁]
    rw [run_bind (run_tokenPos s₁), run_bind (hstands₁.run_at? _)]
    simp [endToken, pushOption]
  obtain ⟨n, hn⟩ : ∃ n, s.limit = n + 2 := by
    have hlt := hstands.sound.left_lt_limit
    have hpos := hstands.sound.left_pos_iff.mpr (hstands.kind_eq ▸ hend)
    exact ⟨s.limit - 2, by omega⟩
  have hfirst : (at? .endOfFile).run s = some (false, s) := by
    rw [hstands.run_at?, decide_eq_false hend]
  have hlast : (at? .endOfFile).run s₁ = some (true, s₁) := hstands₁.run_at? _
  rw [topLevel, run_bind (run_tokenPos s), repeating]
  simp [hn, repeatUpTo, hfirst, hinto, hlast, run_tokenPos]

/-- The text of a term with a semicolon is the text of a file without errors that has the term as
its one statement. -/
theorem run_sourceFile {text : List Char} (he : e.Tight) (htext : text = e.text ++ [';'])
    (hroom : e.nesting + 2 ≤ Limits.grammarDepth) (fileName : String) :
    ∃ i j list endOfFile root s,
      (sourceFile (run (fuelFor text)) fileName).run (.ofText text) = some (some root, s) ∧
      allErrors s = [] ∧ s.tree.data? root = some (.sourceFile fileName list endOfFile) ∧
      list.nodes = [i] ∧ Holds s.tree.part? (some i) (.expressionStatement .statement j) ∧
      Represents s.tree.part? j e := by
  obtain ⟨l, hopens, -⟩ := exists_opens he (breaksName_cons (c := ';') (by decide) [])
  subst htext
  have hinert : Inert (e.text ++ [';']) := (inert_text e).append (.of_notMem (by decide))
  obtain ⟨s₁, hadvance, hstands₁, hleft, hdepth⟩ := Stands.run_start hopens hinert
  have hfuel := lt_fuelFor hleft
  obtain ⟨i, j, list, s, hrun, hstands, hlist, hnode, he'⟩ :=
    run_topLevel he ⟨l, hopens, hstands₁⟩ (Nat.le_of_succ_le hfuel) (by omega)
  have htokenStop : tokenStop.run s = some (s.scanner.cursor.stop, s) := rfl
  let ended := s.tree.add (.token .endOfFile) s.scanner.cursor.stop s.scanner.cursor.stop {}
  let rooted := ended.2.add (.sourceFile fileName list (some ended.1)) 0 s.scanner.cursor.stop {}
  have hgrows : s.tree.Grows rooted.2 := (Tree.Grows.add ..).trans (Tree.Grows.add ..)
  refine ⟨i, j, list, some ended.1, rooted.1, { s with tree := rooted.2 }, ?_, ?_,
    Tree.data?_add_self .., hlist, hnode.grows hgrows, he'.grows hgrows⟩
  · simp only [sourceFile, StateT.run_bind, hadvance, Option.bind_eq_bind, Option.bind_some, hrun,
      htokenStop]
    rfl
  · simp [allErrors, hstands.noErrors, hstands.noTokenErrors]
    rfl

end Term

namespace SourceTree

open Printer

variable {t : Tree} {statement : NodeId} {id : Option NodeId} {e : Term}

/-- A statement that is a term without parentheses is printed, in any layout, as a text that is read
back without an error, and as one statement. Where the parentheses in its tree are looked through,
that statement is the term again, and no other one. The term has to nest less deep than the reader
of its text goes, which reads the statement one level deep and its expression two. -/
theorem ofSource_printNode
    (hstatement : t.data? statement = some (.expressionStatement .statement id))
    (h : Term.Represents t.part? id e) (hbare : e.bare = e)
    (hnesting : e.grouped.nesting + 2 ≤ Limits.grammarDepth) (fileName : String) (layout : Layout) :
    let read := ofSource fileName (printNode t layout statement)
    read.errors = [] ∧ ∃ statement' id', read.statements = [statement'] ∧
      read.tree.data? statement' = some (.expressionStatement .statement id') ∧
      ∀ e', Term.Represents (fun id => read.tree.part? (read.tree.skipParentheses id)) id' e' ↔
        e' = e := by
  intro read
  have htext : (printNode t layout statement).toList = e.grouped.text ++ [';'] := by
    rw [Term.printNode_eq hstatement h, String.toList_ofList]
  obtain ⟨i, j, list, endOfFile, root, s, hrun, herrors, hroot, hlist, hnode, hread⟩ :=
    Term.run_sourceFile (Term.tight_grouped e) htext hnesting fileName
  have hofSource : read = ⟨fileName, printNode t layout statement, s.tree, root,
      Grammar.allErrors s⟩ := by
    simp only [read, ofSource, hrun, Option.getD_some]
  have hterm : Term.Represents (fun id => s.tree.part? (s.tree.skipParentheses id)) j e := by
    have := Term.represents_bare hread
    rwa [Term.bare_grouped, hbare] at this
  rw [hofSource]
  refine ⟨herrors, i, j, ?_, ?_, fun e' => ⟨fun h' => h'.unique hterm, ?_⟩⟩
  · simp [statements, Tree.statements?, hroot, hlist]
  · exact hnode.partData?
  · rintro rfl
    exact hterm

end SourceTree

namespace Term

/-- The nodes of `a - (b - - -c)` as a statement, without the parentheses. -/
def differenceTree : Tree :=
  let nodes : List Data :=
    [.identifier "a", .identifier "b", .identifier "c", .prefixed .minus (some 2),
      .prefixed .minus (some 3), .binary (some 1) .minus (some 4),
      .binary (some 0) .minus (some 5), .expressionStatement .statement (some 6)]
  nodes.foldl (fun t data => (t.add data 0 0 {}).2) {}

def difference : Term :=
  let minus : { k // k ∈ operators } := ⟨.minus, by decide⟩
  let sign : { k // k ∈ signs } := ⟨.minus, by decide⟩
  .binary (.name ⟨"a", by decide, by decide⟩) minus
    (.binary (.name ⟨"b", by decide, by decide⟩) minus
      (.prefixed sign (.prefixed sign (.name ⟨"c", by decide, by decide⟩))))

theorem represents_difference : Represents differenceTree.part? (some 6) difference := by
  have node {id : NodeId} {d : Data} (h : (differenceTree.node? id).map Node.data = some d)
      (hflags : (differenceTree.node? id).all fun n => !n.flags.optionalChain) :
      Holds differenceTree.part? (some id) d := by
    obtain ⟨n, hn, hd⟩ := Option.map_eq_some_iff.mp h
    rw [hn] at hflags
    exact ⟨n, hn, hd, by simpa using hflags⟩
  exact .binary (node rfl rfl) (.name (node rfl rfl)) (.binary (node rfl rfl) (.name (node rfl rfl))
    (.prefixed (node rfl rfl) (.prefixed (node rfl rfl) (.name (node rfl rfl)))))

end Term

namespace SourceTree

open Printer

/-- The parentheses and the blanks between the signs come back as the same term. -/
theorem ofSource_printNode_difference :
    printNode Term.differenceTree {} 7 = "a - (b - - -c);" ∧
      (let read := ofSource "a.ts" (printNode Term.differenceTree {} 7)
      read.errors = [] ∧ ∃ statement' id', read.statements = [statement'] ∧
        read.tree.data? statement' = some (.expressionStatement .statement id') ∧
        ∀ e', Term.Represents (fun id => read.tree.part? (read.tree.skipParentheses id)) id' e' ↔
          e' = Term.difference) :=
  ⟨Term.printNode_eq rfl Term.represents_difference {},
    ofSource_printNode rfl Term.represents_difference rfl (by decide) "a.ts" {}⟩

end SourceTree

end Unchain
