import Unchain.Conversion.Plan
import Unchain.Proofs.Unroll.Emits

/-!
# What a converted function declares and writes

The chains of a function are unrolled one after another, with one register of
names. Taken together their statements declare each binding once and before
they assign to it, and assign to no constant as far as the number of writes was
counted right (`written_unrollGroups`). What statements of the source do to the
bindings, such as an assignment to a parameter of a handler, is not counted.
-/

namespace Unchain.Conversion

open Chain (Group)
open Promise (Oracle)
open Syntax (NodeId Tree)
open Unroll (Depicts Emits Event Unrolled emits_unrollChain)

variable {t : Tree} {s : Unroll.State} {groups : List Group}

/-- The statements for all groups of a function do to bindings what the register records. -/
theorem emits_unrollGroups (ht : t.Closed) (file : SourceFile) (o : Oracle) (function : NodeId)
    (hgroups : ∀ group ∈ groups, group.chain < t.size) (hgrow : t.Evolves s.tree) :
    Emits t.size s
      (((unrollGroups file o function groups).run s).1.flatMap Unrolled.statements)
      ((unrollGroups file o function groups).run s).2 := by
  induction groups generalizing s with
  | nil => exact .silent (.refl _) rfl
  | cons group groups ih =>
      have hfirst : Emits t.size s ((unrollGroup file o function group).run s).1.statements
          ((unrollGroup file o function group).run s).2 :=
        emits_unrollChain ht _ _ hgrow (hgroups group List.mem_cons_self)
      have hrest := ih (fun other hother => hgroups other (List.mem_cons_of_mem _ hother))
        (hgrow.trans hfirst.evolves)
      have hrun : (unrollGroups file o function (group :: groups)).run s = _ :=
        (congrArg (StateT.run · s) List.mapM_cons).trans ((Unroll.run_bind rfl).trans
          (Unroll.run_bind rfl))
      rw [hrun]
      exact hfirst.append hrest

/-- The statements for all groups of a function, read one after another. A binding is declared by
`const` or `let` at most once, by the first statement about it, and only if it was not declared
before. An assignment comes after a declaration. A constant is not assigned to, if its binding is
written at most as often as was counted. -/
theorem written_unrollGroups (ht : s.tree.Closed) (file : SourceFile) (o : Oracle)
    (function : NodeId) (hgroups : ∀ group ∈ groups, group.chain < s.tree.size) :
    ∃ es, Depicts s.tree.size ((unrollGroups file o function groups).run s).2.tree
        s.register.name?
        (((unrollGroups file o function groups).run s).1.flatMap Unrolled.statements) es ∧
      ∀ pre e post, es = pre ++ e :: post →
        (e.isDeclaration = true →
          s.register.isDeclared e.key = false ∧ ∀ earlier ∈ pre, earlier.key ≠ e.key) ∧
        (∀ key, e = .assigns key → s.register.isDeclared key = true ∨
          ∃ earlier ∈ pre, earlier.key = key ∧ earlier ≠ .assigns key) ∧
        ∀ key, e = .declares key true →
          es.countP (Event.writes key) ≤ s.register.writesLeft key → .assigns key ∉ post := by
  obtain ⟨-, es, hdepicts, hfollows⟩ := emits_unrollGroups ht file o function hgroups (.refl _)
  refine ⟨es, hdepicts, ?_⟩
  rintro pre e post rfl
  refine ⟨hfollows.first, ?_, ?_⟩
  · rintro key rfl
    exact hfollows.declared
  · rintro key rfl
    exact hfollows.constant

namespace Sample

/-- `fetch().then(h)` -/
def namedTree : Tree where
  nodes := #[⟨.identifier "fetch", {}, 0, 5, none, none⟩,
    ⟨.call .call (some 0) none (some {}), {}, 0, 7, none, none⟩,
    ⟨.identifier "then", {}, 8, 12, none, none⟩,
    ⟨.access .property (some 1) (some 2) false, {}, 0, 12, none, none⟩,
    ⟨.identifier "h", {}, 13, 14, none, none⟩,
    ⟨.call .call (some 3) none (some { nodes := [4] }), {}, 0, 15, none, none⟩]

def namedState : Unroll.State where
  tree := namedTree
  register := ⟨[(.minted 4, { name := "result" })], ["result"]⟩

def namedGroups : List Group := [⟨[5], 5, .arrowBody, none⟩]

/-- `const result = await fetch(); return h(result);` -/
def namedRun : List Unrolled × Unroll.State :=
  (unrollGroups (.ofSource "a.ts" "") ⟨[1, 5].contains, fun _ => none, fun _ => none⟩ 0
    namedGroups).run namedState

end Sample

/-- The value of `fetch()` goes to `h` through a binding that is declared once. -/
theorem written_unrollGroups_named :
    ∃ es, Depicts 6 Sample.namedRun.2.tree Sample.namedState.register.name?
        (Sample.namedRun.1.flatMap Unrolled.statements) es ∧
      ∀ pre e post, es = pre ++ e :: post → e.isDeclaration = true →
        Sample.namedState.register.isDeclared e.key = false ∧
          ∀ earlier ∈ pre, earlier.key ≠ e.key := by
  have hclosed : Sample.namedState.tree.Closed := by decide +kernel
  have hgroups : ∀ group ∈ Sample.namedGroups, group.chain < Sample.namedState.tree.size := by
    decide +kernel
  obtain ⟨es, hdepicts, hwritten⟩ := written_unrollGroups hclosed (.ofSource "a.ts" "")
    ⟨[1, 5].contains, fun _ => none, fun _ => none⟩ 0 hgroups
  exact ⟨es, hdepicts, fun pre e post heq => (hwritten pre e post heq).1⟩

end Unchain.Conversion
