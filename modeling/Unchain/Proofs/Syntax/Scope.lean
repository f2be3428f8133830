import Mathlib.Data.List.Nodup
import Mathlib.Data.List.Perm.Subperm
import Mathlib.Data.Nat.Find
import Unchain.Proofs.Syntax.Growth

/-!
# Walks with fuel

Walks go down a tree with as much fuel as there are nodes. Whatever the tree, that
is enough: the shortest way to a node passes no node twice (`found_size`). So
`containsThis` finds a `this` that belongs to the function around a node if there is
one (`containsThis_iff`), and `scopeNodes` meets every node that a walk of its kind
can get to (`mem_scopeNodes_iff`).
-/

namespace Unchain.Syntax

/-- `this` or `super`. -/
def Data.isThis : Data → Bool
  | .token .thisKeyword | .token .superKeyword => true
  | _ => false

/-- A construct with a `this` of its own: a class, or a function that is no arrow. -/
def Data.bindsThis : Data → Bool
  | .function .arrow _ => false
  | .function .. | .classLike .. => true
  | _ => false

/-! ### Fuel -/

section

variable (found : Nat → NodeId → Prop) {here : NodeId → Prop} {next : NodeId → NodeId → Prop}
variable (hzero : ∀ id, ¬ found 0 id)
variable (hsucc : ∀ fuel id,
  found (fuel + 1) id ↔ here id ∨ ∃ child, next id child ∧ found fuel child)

include hzero hsucc

/-- More fuel finds what less fuel finds. -/
theorem found_mono {fuel more : Nat} {id : NodeId} (h : fuel ≤ more) (hfound : found fuel id) :
    found more id := by
  induction fuel generalizing more id with
  | zero => exact absurd hfound (hzero id)
  | succ fuel ih =>
    obtain ⟨more, rfl⟩ : ∃ n, more = n + 1 := ⟨more - 1, by omega⟩
    refine (hsucc more id).mpr (((hsucc fuel id).mp hfound).imp_right ?_)
    rintro ⟨child, hnext, hchild⟩
    exact ⟨child, hnext, ih (Nat.le_of_succ_le_succ h) hchild⟩

/-- If it takes this much fuel to find something, there are as many nodes on the way to it. -/
theorem exists_way {fuel : Nat} {id : NodeId} (hfound : found (fuel + 1) id)
    (hless : ¬ found fuel id) :
    ∃ way : List NodeId, way.length = fuel + 1 ∧ way.Nodup ∧
      ∀ node ∈ way, found (fuel + 1) node := by
  induction fuel generalizing id with
  | zero =>
    refine ⟨[id], rfl, List.nodup_singleton id, fun node hnode => ?_⟩
    rwa [List.mem_singleton.mp hnode]
  | succ fuel ih =>
    obtain hhere | ⟨child, hnext, hchild⟩ := (hsucc _ _).mp hfound
    · exact absurd ((hsucc _ _).mpr (.inl hhere)) hless
    · have hchildless : ¬ found fuel child := fun h =>
        hless ((hsucc _ _).mpr (.inr ⟨child, hnext, h⟩))
      obtain ⟨way, hlength, hnodup, hway⟩ := ih hchild hchildless
      -- The node itself is not on the way from its child: less fuel would do for it.
      have hfresh : id ∉ way := fun hmem => hless (hway id hmem)
      refine ⟨id :: way, by rw [List.length_cons, hlength],
        List.nodup_cons.mpr ⟨hfresh, hnodup⟩, ?_⟩
      intro node hnode
      rcases List.mem_cons.mp hnode with rfl | hnode
      · exact hfound
      · exact found_mono found hzero hsucc (Nat.le_succ _) (hway node hnode)

/-- What is found in a tree at all is found with as much fuel as there are nodes. -/
theorem found_size {size : Nat} (hsize : ∀ fuel id, found fuel id → id < size) {fuel : Nat}
    {id : NodeId} (hfound : found fuel id) : found size id := by
  classical
  have hex : ∃ fuel, found fuel id := ⟨fuel, hfound⟩
  have hleast : ∀ fuel < Nat.find hex, ¬ found fuel id := fun _ => Nat.find_min hex
  have hfind := Nat.find_spec hex
  generalize Nat.find hex = least at hleast hfind
  cases least with
  | zero => exact absurd hfind (hzero id)
  | succ least =>
    obtain ⟨way, hlength, hnodup, hway⟩ :=
      exists_way found hzero hsucc hfind (hleast least (Nat.lt_succ_self _))
    have hsub : way ⊆ List.range size := fun node hnode =>
      List.mem_range.mpr (hsize _ _ (hway node hnode))
    have hle := (hnodup.subperm hsub).length_le
    rw [hlength, List.length_range] at hle
    exact found_mono found hzero hsucc hle hfind

end

namespace Tree

/-! ### Looking for `this` -/

/-- There is a `this` at a node or below it, in no construct that has a `this` of its own. -/
inductive UsesThis (t : Tree) : NodeId → Prop where
  | here {id : NodeId} {data : Data} (hdata : t.data? id = some data) (hthis : data.isThis) :
      UsesThis t id
  | child {id child : NodeId} {data : Data} (hdata : t.data? id = some data)
      (hopen : data.bindsThis = false) (hc : child ∈ data.children) (h : UsesThis t child) :
      UsesThis t id

variable {t : Tree} {id : NodeId} {fuel : Nat}

theorem containsThis_go_succ :
    containsThis.go t (fuel + 1) id = true ↔ ∃ data, t.data? id = some data ∧
      (data.isThis = true ∨
        data.bindsThis = false ∧ ∃ child ∈ data.children, containsThis.go t fuel child = true) := by
  rw [containsThis.go]
  cases hdata : t.data? id with
  | none => simp
  | some data =>
    simp only [Option.some.injEq, exists_eq_left']
    split
    · next h => cases h
    · next h => cases h; simp [Data.isThis]
    · next h => cases h; simp [Data.isThis]
    · next hthis hsuper h =>
      cases h
      have hno : data.isThis = false := by
        unfold Data.isThis
        split
        · exact absurd rfl hthis
        · exact absurd rfl hsuper
        · rfl
      rw [hno]
      split <;> simp_all [Data.bindsThis]

theorem UsesThis.exists_fuel (h : t.UsesThis id) : ∃ fuel, containsThis.go t fuel id = true := by
  induction h with
  | here hdata hthis => exact ⟨1, containsThis_go_succ.mpr ⟨_, hdata, .inl hthis⟩⟩
  | child hdata hopen hc _ ih =>
    obtain ⟨fuel, hfuel⟩ := ih
    exact ⟨fuel + 1, containsThis_go_succ.mpr ⟨_, hdata, .inr ⟨hopen, _, hc, hfuel⟩⟩⟩

theorem usesThis_of_go (h : containsThis.go t fuel id = true) : t.UsesThis id := by
  induction fuel generalizing id with
  | zero => cases h
  | succ fuel ih =>
    obtain ⟨data, hdata, hthis | ⟨hopen, child, hc, hchild⟩⟩ := containsThis_go_succ.mp h
    · exact .here hdata hthis
    · exact .child hdata hopen hc (ih hchild)

/-- The fuel suffices, in any tree. -/
theorem containsThis_iff : t.containsThis id = true ↔ t.UsesThis id := by
  refine ⟨usesThis_of_go, fun h => ?_⟩
  obtain ⟨fuel, hfuel⟩ := h.exists_fuel
  let found (fuel : Nat) (id : NodeId) : Prop := containsThis.go t fuel id = true
  have hzero (id : NodeId) : ¬ found 0 id := Bool.false_ne_true
  have hsucc (fuel : Nat) (id : NodeId) : found (fuel + 1) id ↔
      (∃ data, t.data? id = some data ∧ data.isThis = true) ∨
        ∃ child, (∃ data, t.data? id = some data ∧ data.bindsThis = false ∧
          child ∈ data.children) ∧ found fuel child := by
    refine containsThis_go_succ.trans ?_
    grind
  have hsize (fuel : Nat) (id : NodeId) (h : found fuel id) : id < t.size := by
    cases fuel with
    | zero => cases h
    | succ fuel =>
      obtain ⟨data, hdata, -⟩ := containsThis_go_succ.mp h
      exact lt_size_of_data? hdata
  exact found_mono found hzero hsucc (Nat.le_succ _) (found_size found hzero hsucc hsize hfuel)

/-! ### Walking through a function -/

/-- A node that a walk from `root` enters: functions and classes only at its start. -/
def Entered (t : Tree) (root id : NodeId) (n : Node) : Prop :=
  t.node? id = some n ∧ (id = root ∨ n.data.isFunction = false ∧ n.data.isClass = false)

/-- A walk from `root` that goes below nodes where `descend` says so can get from one node to
another one. -/
inductive Meets (t : Tree) (descend : Node → Bool) (root : NodeId) : NodeId → NodeId → Prop
  | here {id : NodeId} {n : Node} (hn : t.Entered root id n) : Meets t descend root id id
  | child {id child x : NodeId} {n : Node} (hn : t.Entered root id n) (hdescend : descend n = true)
      (hc : child ∈ n.data.children) (h : Meets t descend root child x) : Meets t descend root id x

section

variable {descend : Node → Bool} {root x : NodeId}

theorem mem_scopeNodes_go_succ : x ∈ scopeNodes.go t descend root (fuel + 1) id ↔
    ∃ n, t.Entered root id n ∧ (x = id ∨ descend n = true ∧
      ∃ child ∈ n.data.children, x ∈ scopeNodes.go t descend root fuel child) := by
  rw [scopeNodes.go]
  cases hn : t.node? id with
  | none => simp [Entered, hn]
  | some n =>
    have hentered : t.Entered root id n ↔
        ¬ (id ≠ root ∧ (n.data.isFunction = true ∨ n.data.isClass = true)) := by
      rw [Entered, hn]
      grind
    simp only [Entered, hn, Option.some.injEq] at hentered ⊢
    split
    · grind
    · split
      · rw [List.mem_cons, List.mem_flatMap]
        grind
      · rw [List.mem_singleton]
        grind

theorem Meets.exists_fuel (h : t.Meets descend root id x) :
    ∃ fuel, x ∈ scopeNodes.go t descend root fuel id := by
  induction h with
  | here hn => exact ⟨1, mem_scopeNodes_go_succ.mpr ⟨_, hn, .inl rfl⟩⟩
  | child hn hdescend hc _ ih =>
    obtain ⟨fuel, hfuel⟩ := ih
    exact ⟨fuel + 1, mem_scopeNodes_go_succ.mpr ⟨_, hn, .inr ⟨hdescend, _, hc, hfuel⟩⟩⟩

theorem meets_of_go (h : x ∈ scopeNodes.go t descend root fuel id) :
    t.Meets descend root id x := by
  induction fuel generalizing id with
  | zero => cases h
  | succ fuel ih =>
    obtain ⟨n, hn, rfl | ⟨hdescend, child, hc, hchild⟩⟩ := mem_scopeNodes_go_succ.mp h
    · exact .here hn
    · exact .child hn hdescend hc (ih hchild)

/-- A walk meets the nodes that it can get to, in any tree. -/
theorem mem_scopeNodes_iff : x ∈ t.scopeNodes descend root ↔ t.Meets descend root root x := by
  refine ⟨meets_of_go, fun h => ?_⟩
  obtain ⟨fuel, hfuel⟩ := h.exists_fuel
  let found (fuel : Nat) (id : NodeId) : Prop := x ∈ scopeNodes.go t descend root fuel id
  have hzero (id : NodeId) : ¬ found 0 id := List.not_mem_nil
  have hsucc (fuel : Nat) (id : NodeId) : found (fuel + 1) id ↔
      (∃ n, t.Entered root id n ∧ x = id) ∨
        ∃ child, (∃ n, t.Entered root id n ∧ descend n = true ∧ child ∈ n.data.children) ∧
          found fuel child := by
    refine mem_scopeNodes_go_succ.trans ?_
    grind
  have hsize (fuel : Nat) (id : NodeId) (h : found fuel id) : id < t.size := by
    cases fuel with
    | zero => exact absurd h (hzero id)
    | succ fuel =>
      obtain ⟨n, hn, -⟩ := mem_scopeNodes_go_succ.mp h
      exact lt_size_of_node? hn.1
  exact found_mono found hzero hsucc (Nat.le_succ _) (found_size found hzero hsucc hsize hfuel)

end

end Tree

end Unchain.Syntax
