import Unchain.Proofs.Conversion.Entered
import Unchain.Proofs.Conversion.Written
import Unchain.Proofs.Unroll.Exits

/-!
# Control does not run past a root that returns a chain

The links of all chains of a function are marked before the first chain is unrolled.
No link is marked that is the last one of its chain, so the statements for each chain
that is returned leave as if there were no others (`exits_unrollGroups`). Whatever
stands behind a root `return chain;` is then not reached, as it was not before
(`not_executes_normal_of_plan?`).
-/

namespace Unchain.Conversion

open Chain (Ends Group IsLast glue rootsOf)
open Execution (Executes Meaning)
open Naming (NamesBound)
open Promise (Oracle)
open Syntax (NodeId Tree)
open Unroll (ExitsAmong Unmarked Unrolled exits_unrollChain has_mark_eq_false)

variable {t : Tree} {o : Oracle} {function : NodeId}

/-- Marking chains marks no link that is the last one of its chain. -/
theorem has_marks_eq_false (ht : t.Closed) {chains : List NodeId}
    (hchains : ∀ chain ∈ chains, chain < t.size) {marks : Chain.Successors} {id : NodeId}
    (hid : IsLast t o id) (h : marks.has id = false) :
    (chains.foldl (fun marks chain => marks.mark t o (some chain) false) marks).has id = false := by
  induction chains generalizing marks with
  | nil => exact h
  | cons chain rest ih =>
      exact ih (fun x hx => hchains x (List.mem_cons_of_mem _ hx))
        (has_mark_eq_false ht (.refl t) (hchains chain List.mem_cons_self) hid h)

/-- Each chain that ends and is returned leaves, whatever other chains are unrolled around it. -/
theorem exits_unrollGroups (ht : t.Closed) (file : SourceFile) (function : NodeId)
    {groups : List Group} (hgroups : ∀ group ∈ groups, group.chain < t.size) {s : Unroll.State}
    (hs : Unmarked t o s) :
    ∀ group unrolled,
      (group, unrolled) ∈ groups.zip ((unrollGroups file o function groups).run s).1 →
      sinkOf group = .returned → Ends t o (some group.chain) →
      ExitsAmong ((unrollGroups file o function groups).run s).2.tree unrolled.statements := by
  induction groups generalizing s with
  | nil => nofun
  | cons first rest ih =>
      have hfirst := hgroups first List.mem_cons_self
      have hrest := fun x hx => hgroups x (List.mem_cons_of_mem _ hx)
      have hs' : Unmarked t o ((unrollGroup file o function first).run s).2 := by
        unfold unrollGroup
        exact hs.unrollChain ht rfl hfirst (sinkOf first)
      have hrun : (unrollGroups file o function (first :: rest)).run s = _ :=
        (congrArg (StateT.run · s) List.mapM_cons).trans ((Unroll.run_bind rfl).trans
          (Unroll.run_bind rfl))
      rw [hrun]
      rintro group unrolled hmem hsink hends
      rcases List.mem_cons.mp hmem with heq | hmem
      · obtain ⟨rfl, rfl⟩ := Prod.mk.inj heq
        have hexits : ExitsAmong ((unrollGroup file o function group).run s).2.tree
            ((unrollGroup file o function group).run s).1.statements := by
          rw [unrollGroup, hsink]
          exact exits_unrollChain ht rfl hfirst hends hs
        exact hexits.evolves (emits_unrollGroups ht file o function hrest hs'.evolves).evolves
      · exact ih hrest hs' group unrolled hmem hsink hends

section

variable {fileName source : String} (herrors : (SourceFile.ofSource fileName source).errors = [])
  (hsymbols : o.symbolAt? = (SourceFile.ofSource fileName source).bindings.symbolAt?)
include herrors hsymbols

/-- A plan starts with all chains in its tree, and with no link marked that is the last one of its
chain. -/
theorem unmarked_plan? {plan : Plan} :
    let s := SourceFile.ofSource fileName source
    let glued := glue o s.bindings s.tree (rootsOf s.tree o function)
    plan? s o function glued.1 glued.2 = some plan →
      plan.state.tree.Closed ∧ (∀ group ∈ plan.groups, group.chain < plan.state.tree.size) ∧
        Unmarked plan.state.tree o plan.state := by
  intro s glued hplan
  obtain ⟨hbottom, -, horigin⟩ := SourceTree.ofSource_branching fileName source
  obtain ⟨hgrafts, hbottom', -, hspliced⟩ := Chain.grafts_glue (o := o) (b := s.bindings) hbottom
    horigin fun root (hroot : root ∈ rootsOf s.tree o function) => Chain.isIn_of_mem_rootsOf hroot
  obtain ⟨⟨register, tree⟩, hchoose, hplanned⟩ := Option.bind_eq_some_iff.mp hplan
  have hbound : NamesBound o s.bindings s.tree := namesBound_ofSource herrors hsymbols
  have hrespells := Naming.respells_choose? hbottom'.closed
    (hbound.mono hgrafts.size_le hgrafts.grows.evolves.originOf) hchoose
  have ht : tree.Closed := hrespells.closed hbottom'.closed
  have hchains (group : Group) (hgroup : group ∈ glued.1) : group.chain < tree.size := by
    obtain ⟨_, -, _, _, -, -, -, hsplices⟩ := hspliced group hgroup
    exact Nat.lt_of_lt_of_le hsplices.chain_lt hrespells.size_le
  obtain rfl := Option.some.inj hplanned
  refine ⟨ht, hchains, .refl tree, fun id hid => has_marks_eq_false ht ?_ hid rfl⟩
  intro chain hchain
  obtain ⟨group, hgroup, rfl⟩ := List.mem_map.mp hchain
  exact hchains group hgroup

/-- Control does not run past the statements that take the place of a root `return chain;`, however
the promises settle, if the value of the chain does not come from a function that may run off its
end. -/
theorem not_executes_normal_of_plan? {plan : Plan} {unrolled : List Unrolled}
    {after : Unroll.State} :
    let s := SourceFile.ofSource fileName source
    let glued := glue o s.bindings s.tree (rootsOf s.tree o function)
    plan? s o function glued.1 glued.2 = some plan →
      (unrollGroups s o function plan.groups).run plan.state = (unrolled, after) →
      ∀ group unrolled', (group, unrolled') ∈ plan.groups.zip unrolled →
      sinkOf group = .returned → Ends plan.state.tree o (some group.chain) →
      ∀ {σ V : Type} (m : Meaning σ V), m.Leaves after.tree → ∀ x begun x',
        ¬ Executes after.tree m (.statements (replacementOf group unrolled').statements) x begun
          .normal x' := by
  intro s glued hplan hrun group unrolled' hmem hsink hends σ V m hm
  obtain ⟨ht, hchains, hs⟩ := unmarked_plan? herrors hsymbols hplan
  have hexits := exits_unrollGroups ht s function hchains hs group unrolled'
  rw [hrun] at hexits
  have hreplaces : replacementOf group unrolled' = unrolled' := by
    rw [replacementOf, if_neg]
    intro hresult
    obtain ⟨symbol, hsymbol⟩ := Option.isSome_iff_exists.mp hresult
    rw [sinkOf, hsymbol] at hsink
    cases hsink
  rw [hreplaces]
  exact (hexits hmem hsink hends).not_executes_normal hm

end

/-- Nothing runs behind `return fetch().then(x=>g(x))`, as the value of `g(x)` is returned. -/
theorem ends_returned_then :
    let s := SourceFile.ofSource "a.ts" "()=>{return fetch().then(x=>g(x))}"
    let o := Oracle.ofFile s {}
    let glued := glue o s.bindings s.tree (rootsOf s.tree o 13)
    ∃ plan, plan? s o 13 glued.1 glued.2 = some plan ∧
      ∃ group ∈ plan.groups, sinkOf group = .returned ∧
        Ends plan.state.tree o (some group.chain) := by
  intro s o glued
  have hshape : (plan? s o 13 glued.1 glued.2).any (fun plan =>
      let t := plan.state.tree
      decide (plan.groups = [⟨[11], 10, .returned, none⟩] ∧
        t.skipParentheses (some 10) = some 10 ∧
        Chain.linkOf t o (some 10) = .thenCall 3 1 (some 9) none ∧
        Chain.handlerOf t o (some 9) = .literal 9 ∧ Chain.handlerOf t o none = .absent ∧
        Chain.bodyOf? t 9 = some 8 ∧ t.statements? 8 = none ∧
        Chain.isChain t o (some 8) = false ∧
        ∀ e < t.size, (10, true) ∉ Chain.entered t o false (Chain.spine t o (some e)))) =
          true := by decide +kernel
  obtain ⟨plan, hplan, hshape⟩ := (Option.any_eq_true ..).mp hshape
  obtain ⟨hgroups, hskip, hlink, hhandler, habsent, hbody, hstatements, hchain, hlast⟩ :=
    of_decide_eq_true hshape
  refine ⟨plan, hplan, ⟨[11], 10, .returned, none⟩, by rw [hgroups]; exact .head _, rfl, ?_⟩
  have hmove : Chain.moveOf? plan.state.tree o (Chain.linkOf plan.state.tree o
      (plan.state.tree.skipParentheses (some 10))) = some (3, 1, .proceed (.literal 9)) := by
    rw [hskip, hlink]
    simp only [Chain.moveOf?, hhandler, habsent]
  have hfunction {callee receiver : NodeId} {move : Chain.Move} {function : NodeId}
      (h : Chain.moveOf? plan.state.tree o (Chain.linkOf plan.state.tree o
        (plan.state.tree.skipParentheses (some 10))) = some (callee, receiver, move))
      (hmem : .literal function ∈ move.handlers) : function = 9 := by
    cases hmove.symm.trans h
    exact Chain.Handler.literal.inj (List.mem_singleton.mp hmem)
  refine .intro (fun x hx => ?_) (fun receiver h => ?_) (fun callee receiver move h hgoes => ?_)
    (fun _ _ _ function h hmem body list hb hl => ?_)
    (fun _ _ _ function r h hmem hr hrchain => ?_)
  · cases hskip.symm.trans hx
    exact hlast
  · rw [hskip, hlink] at h
    cases h
  · cases hmove.symm.trans h
    cases hgoes
  · obtain rfl := hfunction h hmem
    cases hbody.symm.trans hb
    cases hstatements.symm.trans hl
  · obtain rfl := hfunction h hmem
    obtain ⟨body, hb, ⟨-, rfl⟩ | ⟨list, hl, -⟩⟩ := hr
    · cases hbody.symm.trans hb
      cases hchain.symm.trans hrchain
    · cases hbody.symm.trans hb
      cases hstatements.symm.trans hl

namespace Sample

/-- Every statement may end in any way, but a return or a throw does not end normally. -/
def anyhow (t : Tree) : Meaning Unit Unit where
  step id _ c _ := ∀ kind e, t.data? id = some (.leave kind e) → c ≠ .normal
  enter _ _ s := s
  leave s _ := s

end Sample

theorem not_executes_normal_of_plan?_then :
    let s := SourceFile.ofSource "a.ts" "()=>{return fetch().then(x=>g(x))}"
    let o := Oracle.ofFile s {}
    let glued := glue o s.bindings s.tree (rootsOf s.tree o 13)
    ∃ plan, plan? s o 13 glued.1 glued.2 = some plan ∧
      ∃ unrolled after, (unrollGroups s o 13 plan.groups).run plan.state = (unrolled, after) ∧
        ∃ group unrolled', (group, unrolled') ∈ plan.groups.zip unrolled ∧
          sinkOf group = .returned ∧ ∀ x begun x',
            ¬ Executes after.tree (Sample.anyhow after.tree)
              (.statements (replacementOf group unrolled').statements) x begun .normal x' := by
  intro s o glued
  obtain ⟨plan, hplan, group, hgroup, hsink, hends⟩ := ends_returned_then
  rcases hrun : (unrollGroups s o 13 plan.groups).run plan.state with ⟨unrolled, after⟩
  have hlength : (plan? s o 13 glued.1 glued.2).any (fun plan =>
      plan.groups.length = ((unrollGroups s o 13 plan.groups).run plan.state).1.length) = true := by
    decide +kernel
  have hlength : plan.groups.length = unrolled.length := by
    rw [hplan, Option.any_some, hrun] at hlength
    exact of_decide_eq_true hlength
  rw [← List.map_fst_zip (Nat.le_of_eq hlength)] at hgroup
  obtain ⟨⟨_, unrolled'⟩, hmem, rfl⟩ := List.mem_map.mp hgroup
  refine ⟨plan, hplan, unrolled, after, hrun, _, unrolled', hmem, hsink, ?_⟩
  exact not_executes_normal_of_plan? (by decide +kernel) (symbolAt?_ofFile s {}) hplan hrun _ _ hmem
    hsink hends (Sample.anyhow after.tree) fun _ _ _ _ _ hd hstep => hstep _ _ hd rfl

end Unchain.Conversion
