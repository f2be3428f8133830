import Unchain.Proofs.Chain.Glued
import Unchain.Proofs.Chain.Runs

/-!
# Glued chains stay in their function

The links that gluing makes again hold nodes that stood in the function, or one
another (`Stays`). So whatever stands below the chain of a group and is no link
stands in the function too (`below_of_mem_glue`).
-/

namespace Unchain.Chain

open Binding (Table)
open Promise (Oracle)
open Syntax (Data Flags NodeId Tree)
open Syntax.Tree (lt_size_of_data?)

variable {t₀ t t' : Tree} {o : Oracle} {b : Table} {home x : NodeId}

/-- A node that stands in `home`, or one that was made. -/
def IsHome (t₀ : Tree) (home x : NodeId) : Prop := t₀.size ≤ x ∨ t₀.Below home x

/-- `t` has the nodes of `t₀` and new links, which hold what stands in `home` or is new. -/
structure Stays (t₀ t : Tree) (home : NodeId) : Prop where
  grafts : Grafts t₀ t
  isHome : ∀ {id child}, t₀.size ≤ id → child ∈ t.children id → IsHome t₀ home child

namespace Stays

theorem refl (t : Tree) (home : NodeId) : Stays t t home where
  grafts := .refl t
  isHome hid hchild := by
    obtain ⟨n, hn⟩ := Syntax.Tree.node?_of_mem_children hchild
    exact absurd (Syntax.Tree.lt_size_of_node? hn) (Nat.not_lt.mpr hid)

/-- Parts of nodes that stand in `home` or are new do so too. -/
theorem child (h : Stays t₀ t home) {id child : NodeId} (hid : IsHome t₀ home id)
    (hchild : child ∈ t.children id) : IsHome t₀ home child := by
  by_cases hold : id < t₀.size
  · rcases hid with hnew | hbelow
    · exact absurd hold (Nat.not_lt.mpr hnew)
    · rw [Tree.children, h.grafts.data?_eq hold] at hchild
      exact .inr (.child hbelow hchild)
  · exact h.isHome (Nat.le_of_not_lt hold) hchild

theorem below (h : Stays t₀ t home) {id : NodeId} (hid : IsHome t₀ home id)
    (hbelow : t.Below id x) : IsHome t₀ home x := by
  induction hbelow with
  | refl => exact hid
  | child _ hchild ih => exact h.child ih hchild

theorem mem_children_withInner {data : Data} {inner : Option NodeId} {child : NodeId}
    (h : child ∈ (withInner data inner).children) : inner = some child ∨ child ∈ data.children := by
  unfold withInner at h
  split at h <;> simp only [Data.children, List.mem_append, Option.mem_toList] at h ⊢
  · exact .inl h
  · exact h.elim (·.elim .inl fun h => .inr (.inl (.inr h))) fun h => .inr (.inr h)
  · exact h.elim .inl fun h => .inr (.inr h)
  · exact .inr h

/-- A link may be made again with another receiver that stands in `home` or is new. -/
theorem link (h : Stays t₀ t home) {id : NodeId} {data : Data} (hid : IsHome t₀ home id)
    (hdata : t.data? id = some data) (hlink : (inner? data).isSome) (pos stop : Nat) (flags : Flags)
    {inner : Option NodeId} (hinner : ∀ x, inner = some x → IsHome t₀ home x)
    (origin : Option NodeId) :
    Stays t₀ ((t.add (withInner data inner) pos stop flags).2.setOrigin t.size origin) home where
  grafts := h.grafts.trans (.link hlink pos stop flags inner origin)
  isHome {other child} hother hchild := by
    rw [Tree.children, Syntax.Tree.data?_setOrigin] at hchild
    cases hd : (t.add (withInner data inner) pos stop flags).2.data? other with
    | none => rw [hd] at hchild; cases hchild
    | some d =>
      rw [hd] at hchild
      rcases Tree.of_data?_add hd with ⟨-, rfl⟩ | ⟨-, hd⟩
      · rcases mem_children_withInner hchild with hsome | hmem
        · exact hinner child hsome
        · exact h.child hid (by rw [Tree.children, hdata]; exact hmem)
      · exact h.isHome hother (by rw [Tree.children, hd]; exact hchild)

/-- Building a chain again with a value of the function in place of its leaf. -/
theorem substituteUpTo (h : Stays t₀ t home) {leaf new : NodeId} (hnew : IsHome t₀ home new)
    {fuel : Nat} {id : NodeId} (hid : IsHome t₀ home id) :
    Stays t₀ (substituteUpTo leaf new fuel id t).2 home ∧
      IsHome t₀ home (Chain.substituteUpTo leaf new fuel id t).1 := by
  induction fuel generalizing id with
  | zero => exact ⟨h, hid⟩
  | succ fuel ih =>
    rw [Chain.substituteUpTo]
    split
    · exact ⟨h, hnew⟩
    split
    · exact ⟨h, hid⟩
    next node hnode =>
    split
    · exact ⟨h, hid⟩
    next inner hinner =>
    have hlink : (inner? node.data).isSome := by rw [hinner]; rfl
    have hdata := Syntax.Tree.data?_of_node? hnode
    cases inner with
    | none =>
      refine ⟨h.link hid hdata hlink _ _ _ (fun x hx => ?_) _, .inl h.grafts.size_le⟩
      cases hx
    | some inner =>
      have hinner : IsHome t₀ home inner := h.child hid (by
        rw [Tree.children, hdata]; exact mem_children_of_inner? hinner)
      obtain ⟨hstays, hmade⟩ := ih hinner
      have hdata' : (Chain.substituteUpTo leaf new fuel inner t).2.data? id = some node.data :=
        (substituteUpTo_spec leaf new fuel inner t).1.grows.data? hdata
      dsimp only
      refine ⟨hstays.link hid hdata' hlink _ _ _ (fun x hx => ?_) _, .inl hstays.grafts.size_le⟩
      obtain rfl := Option.some.inj hx
      exact hmade

end Stays

/-! ### Groups -/

/-- The node above one that stands in `home` stands there too. -/
theorem below_parent (ht : t.Branching) (hx : t.Below home x) (hne : x ≠ home) :
    ∃ parent, t.parent? x = some parent ∧ t.Below home parent := by
  cases hx with
  | refl => exact absurd rfl hne
  | child habove hchild => exact ⟨_, ht.parent hchild, habove⟩

/-- The statements before one in the function stand there too. -/
theorem below_of_mem_statementsBefore (ht : t.Branching) {statement previous : NodeId}
    (hbelow : t.Below home statement) (hne : statement ≠ home)
    (h : previous ∈ statementsBefore t statement) : t.Below home previous := by
  obtain ⟨parent, hparent, habove⟩ := below_parent ht hbelow hne
  unfold statementsBefore at h
  rw [hparent, Option.bind_some] at h
  split at h
  · next list hlist =>
    split at h
    · exact .child habove ((Tree.statements?_sublist hlist).subset
        ((List.takeWhile_sublist _).subset (List.mem_reverse.mp h)))
    · cases h
  · cases h

section

variable (ht : t₀.Closed) (hbranching : t₀.Branching)
include ht

/-- Taking in statements of the function keeps the chain there. -/
theorem Stays.absorbAll (claimed : Option NodeId) {group : Group} {before : List NodeId}
    (h : Stays t₀ t home) (hchain : IsHome t₀ home group.chain) (hhome : home < t₀.size)
    (hbefore : ∀ previous ∈ before, t₀.Below home previous) (replaced : List NodeId) :
    Stays t₀ (absorbAll o b claimed t group replaced before).2 home ∧
      IsHome t₀ home (Chain.absorbAll o b claimed t group replaced before).1.chain := by
  refine (absorbAll_induction (motive := fun _ t group _ => Stays t₀ t home ∧
    IsHome t₀ home group.chain) claimed before replaced ⟨h, hchain⟩ ?_).elim
    fun _ ⟨_, _, hlast⟩ => hlast
  rintro taken t group replaced previous group' replaced' t' hmem ⟨h, hchain⟩ habsorb
  obtain ⟨d, symbol, used, htakes, -, rfl, rfl⟩ := of_absorb? habsorb
  have hprevious := hbefore previous hmem
  have hd := (h.grafts.definition? ht (lt_size_of_below ht hhome hprevious)).symm.trans
    htakes.defines
  exact h.substituteUpTo (.inr (hprevious.trans (below_of_definition? hd).2)) hchain

/-- The root and its expression stand in the function, below it. -/
structure Root.IsWithin (t : Tree) (home : NodeId) (root : Root) : Prop where
  node : t.Below home root.node
  node_ne : root.node ≠ home
  expression : t.Below home root.expression

include hbranching

theorem Stays.groupOf {root : Root} (h : Stays t₀ t home) (hhome : home < t₀.size)
    (hroot : root.IsWithin t₀ home) (claimed : Option NodeId) :
    Stays t₀ (groupOf o b t root claimed).2 home ∧
      IsHome t₀ home (Chain.groupOf o b t root claimed).1.chain := by
  obtain ⟨result, replaced, before, -, hbefore, hgroup⟩ := exists_groupOf_eq o b t root claimed
  have hbefore₀ := h.grafts.prefix_statementsBefore (lt_size_of_below ht hhome hroot.node) hbefore
  rw [hgroup]
  exact h.absorbAll ht claimed (.inr hroot.expression) hhome (fun previous hmem =>
    below_of_mem_statementsBefore hbranching hroot.node hroot.node_ne (hbefore₀.subset hmem)) _

/-- The chains of all groups stay in the function. -/
theorem stays_glue {roots : List Root} (hhome : home < t₀.size)
    (hroots : ∀ root ∈ roots, root.IsWithin t₀ home) :
    Stays t₀ (glue o b t₀ roots).2 home ∧
      ∀ group ∈ (glue o b t₀ roots).1, IsHome t₀ home group.chain := by
  refine glue_induction (motive := fun _ groups t => Stays t₀ t home ∧
    ∀ group ∈ groups, IsHome t₀ home group.chain) ⟨.refl t₀ home, nofun⟩ ?_
  rintro earlier groups t root claimed hmem ⟨h, hgroups⟩
  obtain ⟨hstays, hchain⟩ :=
    h.groupOf (o := o) (b := b) ht hbranching hhome (hroots root hmem) claimed
  refine ⟨⟨hstays, hgroups⟩, hstays, fun group hgroup => ?_⟩
  rcases List.mem_append.mp hgroup with hgroup | hgroup
  · exact hgroups group hgroup
  · obtain rfl := List.mem_singleton.mp hgroup
    exact hchain

end

/-! ### Functions -/

theorem isWithin_of_mem_rootsOf (ht : t.Branching) {function : NodeId} {root : Root}
    (h : root ∈ rootsOf t o function) : root.IsWithin t function := by
  have hexpression := (isIn_of_mem_rootsOf h).2
  have hnode : ∃ body, body ∈ t.children function ∧ t.Below body root.node := by
    unfold rootsOf at h
    split at h
    · cases h
    · next body hbody =>
      refine ⟨body, mem_children_of_bodyOf? hbody, ?_⟩
      split at h
      · cases h
      · obtain ⟨statement, hstatement, hroot⟩ := List.mem_filterMap.mp h
        rw [node_of_rootOf? hroot]
        exact Syntax.Tree.below_of_mem_scopeNodes_go hstatement
      · split at h
        · obtain rfl := List.mem_singleton.mp h
          exact .refl
        · cases h
  obtain ⟨body, hchild, hbelow⟩ := hnode
  have hfunction : t.Below function root.node := .of_child hchild hbelow
  refine ⟨hfunction, fun heq => ?_, hfunction.trans hexpression⟩
  have hle := hbelow.le ht
  rw [heq] at hle
  exact Nat.lt_irrefl _ (Nat.lt_of_le_of_lt hle (ht.older hchild))

/-- What stands below the chain of a group, and is no link, stands in the function and was there
before. -/
theorem below_of_mem_glue (ht : t.Closed) (hbranching : t.Branching) {function : NodeId}
    {group : Group} (hgroup : group ∈ (glue o b t (rootsOf t o function)).1)
    (hx : (glue o b t (rootsOf t o function)).2.Below group.chain x) {data : Data}
    (hdata : (glue o b t (rootsOf t o function)).2.data? x = some data)
    (hinner : inner? data = none) : t.Below function x ∧ t.data? x = some data := by
  by_cases hhome : function < t.size
  · obtain ⟨hstays, hgroups⟩ := stays_glue (o := o) (b := b) ht hbranching hhome
      fun root => isWithin_of_mem_rootsOf hbranching
    have hold : x < t.size := by
      refine Nat.lt_of_not_le fun hnew => ?_
      have hsome := hstays.grafts.inner hnew hdata
      rw [hinner] at hsome
      cases hsome
    exact ⟨(hstays.below (hgroups group hgroup) hx).resolve_left (Nat.not_le.mpr hold),
      (hstays.grafts.data?_eq hold).symm.trans hdata⟩
  · have hnone : rootsOf t o function = [] := by
      unfold rootsOf bodyOf?
      cases hd : t.data? function with
      | none => rfl
      | some d => exact absurd (lt_size_of_data? hd) hhome
    rw [hnone] at hgroup
    cases hgroup

end Unchain.Chain
