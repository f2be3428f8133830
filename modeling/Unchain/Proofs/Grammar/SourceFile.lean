import Unchain.Proofs.Grammar.Statements

/-!
# Every text is read to its end

Reading a source file gives a tree for every text, however malformed: the fuel
for nested rules and the limit on repetitions are never used up
(`serves_run`, `run_topLevel`), the reader ends at the end of the text outside
of all rules, and the errors come in the order of their positions
(`ofSource_reads_everything`).
-/

namespace Unchain.Grammar

open Syntax (Data NodeId NodeList Tree)
open Token (Kind Scanner)

/-! ### The rules serve each other -/

/-- A rule gets by with nested rules of smaller rank. -/
theorem run_succ_goes (fuel : Nat) (rule : Rule) (k : Kind) (hsuits : rule.Suits k) :
    Goes (run fuel) (rule.rank k) (On k) (run (fuel + 1) rule) fun _ => rule.Passes k := by
  cases rule with
  | expression => exact expressionBody_reads
  | assignment => exact nested_reads assignmentBody_reads
  | binary level => exact binaryBody_reads
  | unary => exact unaryBody_reads
  | leftHand => exact leftHandBody_reads
  | construction => exact constructionBody_passes fun p hp => hp.trans hsuits
  | statement => exact nested_reads statementBody_reads
  | block =>
    refine (blockBody_goes ?_).mono (Nat.le_refl _) (fun _ => id) fun _ hk p hp => hp.trans hk
    by_cases hk : k = .openBrace
    · exact .inr fun p hp => hp.trans hk
    · exact .inl (by simp [Rule.rank, hk])
  | bindingName => exact bindingNameBody_reads
  | type => exact nested_reads typeBody_reads
  | union => exact unionBody_reads
  | resultType => exact resultTypeBody_reads
  | typeArguments =>
    exact typeArgumentsBody_goes.mono (Nat.le_refl _) (fun _ => id) fun _ hk p hp => hp.trans hk
  | templateRest =>
    exact .passing (skipTemplate_passes fun p hp => hp.trans hsuits) fun _ => .pure id

theorem serves_run (fuel : Nat) : Serves (run fuel) fuel := by
  induction fuel with
  | zero => exact fun rule s _ _ hcost => absurd hcost (Nat.not_lt_zero _)
  | succ fuel ih =>
    intro rule s hs hsuits hcost
    exact run_succ_goes fuel rule s.spot.kind hsuits s hs (ih.mono (Nat.le_of_lt_succ hcost)) rfl

/-! ### The whole text -/

variable {rules : Rules}

theorem topStatementInto_passes (nodes : Array NodeId) :
    Passes rules 8 (fun p => p.kind ≠ .endOfFile) (topStatementInto rules nodes) := by
  refine .look (at?_looks _) fun brace => .ite (fun h => ?_) fun _ =>
    statementInto_passes fun p hp => hp.1
  exact .look (errorHere_stays _) fun _ => .passing (advance_passes fun p hp => hp.1.1) fun _ =>
    .pure id

/-- The statements at the top go on up to the end of the text. -/
theorem run_topLevel {s : State} (hs : Sound s) (hr : Serves rules (8 * s.left + 8)) :
    ∃ statements s', (topLevel rules).run s = some (statements, s') ∧ Reached s s' ∧
      s'.spot.kind = .endOfFile := by
  have hat (s : State) : (at? .endOfFile).run s = some (decide (s.spot.kind = .endOfFile), s) := rfl
  have hpos (s : State) : tokenPos.run s = some (s.scanner.cursor.start, s) := rfl
  have hget (s : State) : (get : Reader State).run s = some (s, s) := rfl
  have hstep (nodes : Array NodeId) (s : State) (hs : Sound s)
      (hr : Serves rules (8 * s.left + 8)) : ∃ turn s', (do
        if ← at? .endOfFile then return .done nodes
        else return .again (← topStatementInto rules nodes) : Reader (Turn (Array NodeId))).run s =
          some (turn, s') ∧ Reached s s' ∧ (turn.Again → s'.left < s.left) ∧
          (¬ turn.Again → s'.spot.kind = .endOfFile) := by
    by_cases hk : s.spot.kind = .endOfFile
    · exact ⟨.done nodes, s, by simp [hat, hk], hs.reached, nofun, fun _ => hk⟩
    · obtain ⟨nodes', s', hrun, hreached, hpass⟩ :=
        topStatementInto_passes nodes s hs hr hk
      exact ⟨.again nodes', s', by simp [hat, hk, hrun], hreached, hpass, fun h => (h trivial).elim⟩
  obtain ⟨nodes, s', hrun, hreached, hend⟩ :=
    run_repeatUpTo (D := fun s => s.spot.kind = .endOfFile) hstep #[] hs hr hs.left_lt_limit
  refine ⟨listOf nodes s.scanner.cursor.start s'.scanner.cursor.start false, s', ?_, hreached, hend⟩
  simp only [topLevel, repeating, StateT.run_bind, hpos, hget, Option.bind_eq_bind,
    Option.bind_some]
  rw [hrun]
  rfl

/-- The fuel for a text covers every rule at its start. -/
theorem lt_fuelFor {text : List Char} {n : Nat} (h : n ≤ text.length) :
    8 * n + 8 ≤ fuelFor text := by
  unfold fuelFor
  omega

/-- Reading a text ends at its end, with the root made last. -/
theorem run_sourceFile (fileName : String) (text : List Char) :
    ∃ root s, (sourceFile (run (fuelFor text)) fileName).run (.ofText text) = some (some root, s) ∧
      (∃ statements endOfFile parent, s.tree.node? root = some
        { data := .sourceFile fileName statements endOfFile, pos := 0,
          stop := Text.byteLength text, parent }) ∧
      s.scanner.cursor.kind = .endOfFile ∧ s.scanner.cursor.rest = [] ∧
      s.depth = 0 ∧ s.context = {} := by
  have hends : (State.ofText text).scanner.cursor.EndsIn text := Scanner.endsIn_ofText text true
  have hs₁ := sound_advance (s := .ofText text) hends (by simp [State.ofText])
  have hadvance : advance.run (.ofText text) = some ((), _) := rfl
  have hserves := (serves_run (fuelFor text)).mono
    (lt_fuelFor hs₁.onToken.tokenRest_suffix.length_le)
  obtain ⟨statements, s₂, hrun, hreached, hk⟩ := run_topLevel hs₁ hserves
  obtain ⟨hrest, hstop⟩ := hreached.sound.onToken.of_endOfFile hk
  have hlength : s₂.scanner.cursor.stop = Text.byteLength text := by
    rw [hstop, hreached.text]
    rfl
  have htokenStop : tokenStop.run s₂ = some (s₂.scanner.cursor.stop, s₂) := rfl
  -- The last two nodes are the end of the file and the file.
  let ended := s₂.tree.add (.token .endOfFile) s₂.scanner.cursor.stop s₂.scanner.cursor.stop {}
  let rooted := ended.2.add (.sourceFile fileName statements (some ended.1)) 0
    s₂.scanner.cursor.stop {}
  refine ⟨rooted.1, { s₂ with tree := rooted.2 }, ?_, ?_, hk, hrest, hreached.depth,
    hreached.context⟩
  · simp only [sourceFile, StateT.run_bind, hadvance, Option.bind_eq_bind, Option.bind_some, hrun,
      htokenStop]
    rfl
  · obtain ⟨parent, hnode⟩ := Tree.Grows.node?_add_self ended.2
      (.sourceFile fileName statements (some ended.1)) 0 s₂.scanner.cursor.stop {}
    exact ⟨statements, some ended.1, parent, hlength ▸ hnode⟩

end Unchain.Grammar

namespace Unchain.SourceTree

open Syntax (NodeId)

/-- Errors in the order in which they are shown. -/
theorem pairwise_allErrors (s : Grammar.State) :
    (Grammar.allErrors s).Pairwise fun e e' => e.start ≤ e'.start := by
  refine (Text.pairwise_stableSort (fun a b h => ?_) (fun a b c h h' => ?_) _).imp fun h => ?_
  · simp only [decide_eq_true_eq, decide_eq_false_iff_not] at h ⊢
    omega
  · simp only [decide_eq_false_iff_not] at h h' ⊢
    omega
  · simpa using h

/-- Every text is read to its end, into a source file that spans it. The reader is outside of all
rules then, and the errors of its tokens and of its syntax are all there, in the order of their
positions. -/
theorem ofSource_reads_everything (fileName source : String) :
    ∃ (root : NodeId) (s : Grammar.State),
      (Grammar.sourceFile (Grammar.run (Grammar.fuelFor source.toList)) fileName).run
        (.ofText source.toList) = some (some root, s) ∧
      (∃ statements endOfFile parent, s.tree.node? root = some
        { data := .sourceFile fileName statements endOfFile, pos := 0,
          stop := Text.byteLength source.toList, parent }) ∧
      s.scanner.cursor.kind = .endOfFile ∧ s.scanner.cursor.rest = [] ∧
      s.depth = (Grammar.State.ofText source.toList).depth ∧
      s.context = (Grammar.State.ofText source.toList).context ∧
      ofSource fileName source =
        { fileName, source, tree := s.tree, root, errors := Grammar.allErrors s } ∧
      (Grammar.allErrors s).Perm (s.errors.toList ++ s.scanner.errors.toList) ∧
      (Grammar.allErrors s).Pairwise fun e e' => e.start ≤ e'.start := by
  obtain ⟨root, s, hrun, hroot, hk, hrest, hdepth, hcontext⟩ :=
    Grammar.run_sourceFile fileName source.toList
  refine ⟨root, s, hrun, hroot, hk, hrest, hdepth, hcontext, ?_, ?_, pairwise_allErrors s⟩
  · simp only [ofSource, hrun, Option.getD_some]
  · unfold Grammar.allErrors
    rw [← Array.toList_append]
    exact Text.stableSort_perm _ _

end Unchain.SourceTree
