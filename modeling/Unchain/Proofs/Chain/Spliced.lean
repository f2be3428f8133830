import Unchain.Proofs.Chain.Copies
import Unchain.Proofs.Chain.Glued
import Unchain.Proofs.Chain.Runs

/-!
# Spliced chains

The chain of a group is the expression of its root, in which the name at the leaf
is replaced by the value that the statement before gives to it, the name at the
leaf of that by the value that the next one before gives to it, and so on.
`spliced` puts the outlines of these expressions together. Each but the last one
loses its leaf, which is a name of the variable that is defined (`Feeds`).

`Splices` says that the chain of a group has this outline, as far as links are
followed. A group of a root alone splices nothing (`splices_root`), each statement
that it takes in adds a definition (`Splices.absorb?`), and what other groups add
to the tree changes nothing (`Splices.grows`). With the runs that the statements
are, this is what gluing comes to for a whole function (`glue_splices`).
-/

namespace Unchain.Chain

open Binding (SymbolId Table)
open Promise (Oracle)
open Syntax (NodeId Tree)
open Syntax.Tree (holds_some)

section

variable (t : Tree) (o : Oracle) (b : Table)

/-- The leaf of an expression is a name of the variable that a statement defines. -/
def ReadsTarget (e : NodeId) (d : Definition) : Prop :=
  ∃ name symbol, leaf t o (some e) = some name ∧ t.isIdentifier name = true ∧
    b.symbolAt? name = some symbol ∧ b.symbolAt? d.target = some symbol

/-- The leaf of an expression is a name of what the first definition defines, the leaf of the value
there a name of what the second one defines, and so on. -/
def Feeds : NodeId → List Definition → Prop
  | _, [] => True
  | e, d :: rest => ReadsTarget t o b e d ∧ Feeds d.value rest

/-- The outline of an expression in which the value of the first definition stands for the leaf, the
value of the second one for the leaf of that, and so on. -/
def spliced : NodeId → List Definition → List (Option NodeId × LinkKind)
  | e, [] => outline t o (some e)
  | e, d :: rest => (outline t o (some e)).dropLast ++ spliced d.value rest

end

/-- The last value that is put in. -/
def lastValue : NodeId → List Definition → NodeId
  | e, [] => e
  | _, d :: rest => lastValue d.value rest

variable {t t' t₀ : Tree} {o : Oracle} {b : Table} {e x : NodeId} {d : Definition}
  {definitions : List Definition}

/-! ### One more definition -/

theorem Feeds.append (h : Feeds t o b e definitions)
    (hlast : ReadsTarget t o b (lastValue e definitions) d) :
    Feeds t o b e (definitions ++ [d]) := by
  induction definitions generalizing e with
  | nil => exact ⟨hlast, trivial⟩
  | cons first rest ih => exact ⟨h.1, ih h.2 hlast⟩

theorem spliced_ne_nil : spliced t o e definitions ≠ [] := by
  induction definitions generalizing e with
  | nil => exact outline_ne_nil _
  | cons first rest ih => exact List.append_ne_nil_of_right_ne_nil _ ih

theorem spliced_append : spliced t o e (definitions ++ [d]) =
    (spliced t o e definitions).dropLast ++ outline t o (some d.value) := by
  induction definitions generalizing e with
  | nil => rfl
  | cons first rest ih =>
    rw [List.cons_append, spliced, spliced, ih, List.dropLast_append_of_ne_nil spliced_ne_nil,
      List.append_assoc]

theorem getLast?_spliced : (spliced t o e definitions).getLast? =
    (outline t o (some (lastValue e definitions))).getLast? := by
  induction definitions generalizing e with
  | nil => rfl
  | cons first rest ih =>
    rw [spliced, List.getLast?_append_of_ne_nil _ spliced_ne_nil]
    exact ih

/-- Every link of a spliced chain but the last one goes on. -/
theorem goesOn_of_mem_dropLast_spliced {entry : Option NodeId × LinkKind}
    (h : entry ∈ (spliced t o e definitions).dropLast) : entry.2.goesOn = true := by
  induction definitions generalizing e with
  | nil => exact goesOn_of_mem_dropLast_outlineUpTo h
  | cons first rest ih =>
    rw [spliced, List.dropLast_append_of_ne_nil spliced_ne_nil] at h
    rcases List.mem_append.mp h with hmem | hmem
    · exact goesOn_of_mem_dropLast_outlineUpTo hmem
    · exact ih hmem

/-! ### Groups -/

/-- The chain of a group is an expression of the tree `t₀` with the values of definitions spliced
into it, as far as links are followed. -/
structure Splices (t₀ : Tree) (o : Oracle) (b : Table) (e : NodeId) (definitions : List Definition)
    (t : Tree) (chain : NodeId) : Prop where
  grafts : Grafts t₀ t
  bottomUp : t.BottomUp
  chain_lt : chain < t.size
  feeds : Feeds t₀ o b e definitions
  outline_eq : outline t o (some chain) = (spliced t₀ o e definitions).take Limits.chainLinks

/-- If the chain of a group ends with a name, that is the name that the last value ends with. -/
theorem Splices.leaf_eq {chain : NodeId} (h : Splices t₀ o b e definitions t chain)
    (horigin : ∀ id, t₀.originOf id = id) (hleaf : leaf t o (some chain) = some x)
    (hname : t.isIdentifier x = true) :
    outline t o (some chain) = spliced t₀ o e definitions ∧
      leaf t₀ o (some (lastValue e definitions)) = some x ∧ t₀.isIdentifier x = true := by
  have hold := h.grafts.lt_of_isIdentifier hname
  have hname₀ : t₀.isIdentifier x = true :=
    (h.grafts.grows.evolves.isIdentifier hold).symm.trans hname
  have hlast := getLast?_outline hleaf
  rw [h.grafts.grows.evolves.originOf hold, horigin] at hlast
  have hends : (linkOf t o (some x)).kind.goesOn = false := by
    rw [← Link.isSome_receiver?, receiver?_linkOf_of_isIdentifier hname]
    rfl
  -- Links that are left out would come behind the name, but a name is the last one.
  have hall : outline t o (some chain) = spliced t₀ o e definitions := by
    rw [h.outline_eq]
    refine List.take_of_length_le (Nat.le_of_not_lt fun hlong => ?_)
    rw [h.outline_eq] at hlast
    have hmem := List.mem_of_getLast? hlast
    have hshort : (spliced t₀ o e definitions).take Limits.chainLinks <+:
        (spliced t₀ o e definitions).dropLast := by
      rw [List.dropLast_eq_take]
      exact List.take_prefix_take_left (Nat.le_sub_one_of_lt hlong)
    have hgoes := goesOn_of_mem_dropLast_spliced (hshort.subset hmem)
    rw [hends] at hgoes
    cases hgoes
  rw [hall, getLast?_spliced] at hlast
  exact ⟨hall, leaf_of_getLast?_outline horigin hlast, hname₀⟩

section

variable (ht : t₀.BottomUp)
include ht

/-- A group of its root only. -/
theorem splices_root {root : Root} (h : Grafts t₀ t) (hbottom : t.BottomUp) (hroot : root.IsIn t₀)
    (result : Option SymbolId) : Splices t₀ o b root.expression [] t
      (Group.chain ⟨[root.node], root.expression, root.kind, result⟩) := by
  have hlt : root.expression < t₀.size := lt_size_of_below ht.closed hroot.1 hroot.2
  refine ⟨h, hbottom, Nat.lt_of_lt_of_le hlt h.size_le, trivial, ?_⟩
  rw [outline_evolves h.grows.evolves ht.closed (holds_some.mpr hlt)]
  exact (take_outlineUpTo (Nat.le_refl _) _).symm

variable (horigin : ∀ id, t₀.originOf id = id)
include horigin

namespace Splices

/-- Taking in a statement splices its value into the chain. -/
theorem absorb? {group group' : Group} {replaced replaced' : List NodeId} {previous : NodeId}
    (h : Splices t₀ o b e definitions t group.chain) (hprevious : previous < t₀.size)
    (habsorb : absorb? o b t group replaced previous = some (group', replaced', t')) :
    ∃ d, definition? t₀ previous = some d ∧
      Splices t₀ o b e (definitions ++ [d]) t' group'.chain := by
  obtain ⟨d, symbol, used, htakes, -, rfl, rfl⟩ := of_absorb? habsorb
  have hname := htakes.isIdentifier
  have hd₀ := (h.grafts.definition? ht.closed hprevious).symm.trans htakes.defines
  have hvalue := lt_size_of_below ht.closed hprevious (below_of_definition? hd₀).2
  obtain ⟨hall, hleaf, hname₀⟩ := h.leaf_eq horigin htakes.leaf hname
  obtain ⟨hbottom, hlt, houtline⟩ := outline_substitute h.bottomUp h.chain_lt
    (Nat.lt_of_lt_of_le hvalue h.grafts.size_le) htakes.leaf hname htakes.isPromise
  have huse := htakes.use
  rw [h.grafts.grows.evolves.originOf (h.grafts.lt_of_isIdentifier hname), horigin] at huse
  refine ⟨d, hd₀, h.grafts.trans (substituteUpTo_spec used d.value (t.size + 1) group.chain t).1,
    hbottom, hlt, h.feeds.append ⟨used, symbol, hleaf, hname₀, huse, htakes.target⟩, ?_⟩
  rw [houtline, hall, spliced_append,
    outline_evolves h.grafts.grows.evolves ht.closed (holds_some.mpr hvalue)]

/-- Taking in statements splices their values into the chain, the nearest first. -/
theorem absorbAll {group : Group} {before replaced : List NodeId} (claimed : Option NodeId)
    (h : Splices t₀ o b e [] t group.chain) (hbefore : ∀ previous ∈ before, previous < t₀.size) :
    ∃ taken definitions, taken <+: before ∧
      Grafts t (absorbAll o b claimed t group replaced before).2 ∧
      (absorbAll o b claimed t group replaced before).1.statements =
        taken.reverse ++ group.statements ∧
      taken.map (definition? t₀) = definitions.map some ∧
      Splices t₀ o b e definitions (absorbAll o b claimed t group replaced before).2
        (absorbAll o b claimed t group replaced before).1.chain := by
  obtain ⟨taken, -, hnearest, definitions, hrest⟩ := absorbAll_induction (o := o) (b := b)
    (motive := fun taken t' group' _ => ∃ definitions, Grafts t t' ∧
      group'.statements = taken.reverse ++ group.statements ∧
      taken.map (definition? t₀) = definitions.map some ∧
      Splices t₀ o b e definitions t' group'.chain)
    claimed before replaced ⟨[], .refl t, rfl, rfl, h⟩ (by
      rintro taken t₁ group' replaced previous group'' replaced' t₂ hmem
        ⟨definitions, hgrafts, hstatements, hdefinitions, hsplices⟩ habsorb
      obtain ⟨d, hd, hsplices'⟩ := hsplices.absorb? ht horigin (hbefore previous hmem) habsorb
      obtain ⟨_, _, used, -, -, rfl, rfl⟩ := of_absorb? habsorb
      refine ⟨definitions ++ [d], hgrafts.trans (substituteUpTo_spec used _ _ _ t₁).1, ?_, ?_,
        hsplices'⟩
      · simp [hstatements]
      · simp [hdefinitions, hd])
  exact ⟨taken, definitions, hnearest, hrest⟩

end Splices

end

/-- What other groups add to the tree changes nothing. -/
theorem Splices.grows {chain : NodeId} (h : Splices t₀ o b e definitions t chain)
    (hgrafts : Grafts t t') (hbottom : t'.BottomUp) : Splices t₀ o b e definitions t' chain where
  grafts := h.grafts.trans hgrafts
  bottomUp := hbottom
  chain_lt := Nat.lt_of_lt_of_le h.chain_lt hgrafts.size_le
  feeds := h.feeds
  outline_eq := by
    rw [outline_evolves hgrafts.grows.evolves h.bottomUp.closed (holds_some.mpr h.chain_lt)]
    exact h.outline_eq

/-- A group of a root has the statements right before the root up to some place, which are
definitions, and their values are spliced into its chain. -/
def Group.IsSpliced (t₀ : Tree) (o : Oracle) (b : Table) (t : Tree) (root : Root) (group : Group) :
    Prop :=
  ∃ taken definitions, group.statements = taken.reverse ++ [root.node] ∧
    taken <+: statementsBefore t₀ root.node ∧ taken.map (definition? t₀) = definitions.map some ∧
    Splices t₀ o b root.expression definitions t group.chain

theorem Group.IsSpliced.root?_eq {root : Root} {group : Group}
    (h : group.IsSpliced t₀ o b t root) : group.root? = some root.node := by
  obtain ⟨taken, definitions, hstatements, -⟩ := h
  rw [Group.root?, hstatements, List.getLast?_concat]

theorem Group.IsSpliced.isRun {root : Root} {group : Group} (h : group.IsSpliced t₀ o b t root)
    (hroot : definition? t₀ root.node = none) :
    ∃ before, group.statements = before ++ [root.node] ∧ IsRun t₀ before root.node := by
  obtain ⟨taken, definitions, hstatements, hnearest, hdefinitions, -⟩ := h
  refine ⟨taken.reverse, hstatements, fun hne => ?_, fun s hs => ?_, hroot⟩
  · exact areNeighbours_of_prefix (fun hnil => hne (by rw [hnil, List.reverse_nil])) hnearest
  · have hmem := List.mem_map_of_mem (f := definition? t₀) (List.mem_reverse.mp hs)
    rw [hdefinitions] at hmem
    obtain ⟨d, -, hd⟩ := List.mem_map.mp hmem
    rw [← hd]
    rfl

section

variable (ht : t₀.BottomUp) (horigin : ∀ id, t₀.originOf id = id)
include ht horigin

theorem isSpliced_groupOf {root : Root} (h : Grafts t₀ t) (hbottom : t.BottomUp)
    (hroot : root.IsIn t₀) (claimed : Option NodeId) :
    Grafts t (groupOf o b t root claimed).2 ∧
      (groupOf o b t root claimed).1.IsSpliced t₀ o b (groupOf o b t root claimed).2 root := by
  obtain ⟨result, replaced, before, -, hbefore, hgroup⟩ := exists_groupOf_eq o b t root claimed
  have hbefore₀ := h.prefix_statementsBefore hroot.1 hbefore
  have hlt : ∀ previous ∈ before, previous < t₀.size := fun previous hmem =>
    lt_size_of_mem_statementsBefore ht.closed (hbefore₀.subset hmem)
  rw [hgroup]
  obtain ⟨taken, definitions, hnearest, hgrafts, hstatements, hdefinitions, hsplices⟩ :=
    (splices_root (o := o) (b := b) ht h hbottom hroot result).absorbAll ht horigin claimed hlt
  exact ⟨hgrafts, taken, definitions, hstatements, hnearest.trans hbefore₀, hdefinitions, hsplices⟩

/-- The tree in which groups are glued has new links, which hold older nodes. Every group belongs to
a root, and its chain is spliced. -/
theorem grafts_glue {roots : List Root} (hroots : ∀ root ∈ roots, root.IsIn t₀) :
    Grafts t₀ (glue o b t₀ roots).2 ∧ (glue o b t₀ roots).2.BottomUp ∧
    ((glue o b t₀ roots).1.map Group.root?).Sublist (roots.map fun root => some root.node) ∧
      ∀ group ∈ (glue o b t₀ roots).1, ∃ root ∈ roots,
        group.IsSpliced t₀ o b (glue o b t₀ roots).2 root := by
  refine (glue_induction (motive := fun earlier groups t => Grafts t₀ t ∧ t.BottomUp ∧
    (groups.map Group.root?).Sublist (earlier.map fun root => some root.node) ∧
    ∀ group ∈ groups, ∃ root ∈ earlier, group.IsSpliced t₀ o b t root)
    ⟨.refl t₀, ht, .refl [], nofun⟩ ?_)
  rintro earlier groups t root claimed hmem ⟨hgrafts, hbottom, hsublist, hspliced⟩
  obtain ⟨hgrafts', hroot⟩ :=
    isSpliced_groupOf (o := o) (b := b) ht horigin hgrafts hbottom (hroots root hmem) claimed
  have hbottom' : (groupOf o b t root claimed).2.BottomUp := by
    obtain ⟨_, _, -, -, -, hsplices⟩ := hroot
    exact hsplices.bottomUp
  have hearlier : ∀ group ∈ groups, ∃ root' ∈ earlier ++ [root],
      group.IsSpliced t₀ o b (groupOf o b t root claimed).2 root' := by
    intro group hgroup
    obtain ⟨root', hroot', taken, definitions, hstatements, hnearest, hdefinitions, hsplices⟩ :=
      hspliced group hgroup
    exact ⟨root', List.mem_append_left _ hroot', taken, definitions, hstatements, hnearest,
      hdefinitions, hsplices.grows hgrafts' hbottom'⟩
  rw [List.map_append, List.map_append]
  have hgrafts₀ := hgrafts.trans hgrafts'
  refine ⟨⟨hgrafts₀, hbottom', hsublist.trans (List.sublist_append_left ..), hearlier⟩,
    hgrafts₀, hbottom', hsublist.append ?_, fun group hgroup => ?_⟩
  · rw [List.map_singleton, List.map_singleton, hroot.root?_eq]
  · rcases List.mem_append.mp hgroup with hgroup | hgroup
    · exact hearlier group hgroup
    · obtain rfl := List.mem_singleton.mp hgroup
      exact ⟨root, List.mem_append_right _ (List.mem_singleton.mpr rfl), hroot⟩

/-- The groups are in the order of their roots, and no root has two. -/
theorem isSpliced_glue {roots : List Root} (hroots : ∀ root ∈ roots, root.IsIn t₀) :
    ((glue o b t₀ roots).1.map Group.root?).Sublist (roots.map fun root => some root.node) ∧
      ∀ group ∈ (glue o b t₀ roots).1, ∃ root ∈ roots,
        group.IsSpliced t₀ o b (glue o b t₀ roots).2 root :=
  (grafts_glue ht horigin hroots).2.2

end

/-- The groups of a function have no statement in common. Each consists of neighbouring statements
that end with a root, the others being definitions; `taken` are these, the nearest to the root
first. As far as links are followed, the chain of a group has the links of the expression of the
root, without the leaf if a statement was taken in, then the links of the value that this one gives
to the leaf, without the leaf if one more was taken in, and so on. -/
theorem glue_splices (fileName source : String) (o : Oracle) (b : Table) (function : NodeId) :
    let t := (SourceTree.ofSource fileName source).tree
    let glued := glue o b t (rootsOf t o function)
    glued.1.Pairwise (fun group group' => group.statements.Disjoint group'.statements) ∧
      ∀ group ∈ glued.1, ∃ root ∈ rootsOf t o function, ∃ taken definitions,
        group.statements = taken.reverse ++ [root.node] ∧
        (taken ≠ [] → AreNeighbours t group.statements) ∧
        taken.map (definition? t) = definitions.map some ∧ Feeds t o b root.expression definitions ∧
        outline glued.2 o (some group.chain) =
          (spliced t o root.expression definitions).take Limits.chainLinks := by
  intro t glued
  obtain ⟨hbottom, hbranching, horigin⟩ := SourceTree.ofSource_branching fileName source
  have hin : ∀ root ∈ rootsOf t o function, root.IsIn t := fun root => isIn_of_mem_rootsOf
  obtain ⟨hsublist, hspliced⟩ := isSpliced_glue (o := o) (b := b) hbottom horigin hin
  refine ⟨?_, fun group hgroup => ?_⟩
  · have hroots : ((rootsOf t o function).map fun root => some root.node).Nodup :=
      List.pairwise_map.mpr ((pairwise_rootsOf hbranching function).imp fun hne heq =>
        hne (Option.some.inj heq))
    refine (List.pairwise_map.mp (hroots.sublist hsublist)).imp_of_mem fun hgroup hgroup' hne => ?_
    obtain ⟨root, hroot, hof⟩ := hspliced _ hgroup
    obtain ⟨root', hroot', hof'⟩ := hspliced _ hgroup'
    rw [hof.root?_eq, hof'.root?_eq] at hne
    obtain ⟨before, hstatements, hrun⟩ := hof.isRun (definition?_eq_none_of_mem_rootsOf hroot)
    obtain ⟨before', hstatements', hrun'⟩ := hof'.isRun (definition?_eq_none_of_mem_rootsOf hroot')
    rw [hstatements, hstatements']
    exact disjoint_of_runs hbranching hrun hrun' fun heq => hne (congrArg some heq)
  · obtain ⟨root, hroot, taken, definitions, hstatements, hnearest, hdefinitions, hsplices⟩ :=
      hspliced group hgroup
    refine ⟨root, hroot, taken, definitions, hstatements, fun hne => ?_, hdefinitions,
      hsplices.feeds, hsplices.outline_eq⟩
    rw [hstatements]
    exact areNeighbours_of_prefix hne hnearest

/-- A group of two statements, in which the leaf of the chain stands in parentheses. -/
theorem glue_splices_pair :
    let source := "function f(){var p=fetch();(p).catch(b)}"
    let t := (SourceTree.ofSource "a.ts" source).tree
    let b := (SourceFile.ofSource "a.ts" source).bindings
    let o := Oracle.ofFile (SourceFile.ofSource "a.ts" source) {}
    let glued := glue o b t (rootsOf t o 14)
    glued.1.map (fun group => (group.statements, outline glued.2 o (some group.chain))) =
        [([5, 12], [(some 11, .catchCall 10), (some 3, .promise)])] ∧
      glued.1.Pairwise (fun group group' => group.statements.Disjoint group'.statements) ∧
      ∀ group ∈ glued.1, ∃ root ∈ rootsOf t o 14, ∃ taken definitions,
        group.statements = taken.reverse ++ [root.node] ∧
        (taken ≠ [] → AreNeighbours t group.statements) ∧
        taken.map (definition? t) = definitions.map some ∧ Feeds t o b root.expression definitions ∧
        outline glued.2 o (some group.chain) =
          (spliced t o root.expression definitions).take Limits.chainLinks := by
  intro source t b o glued
  have hgroups :
      glued.1.map (fun group => (group.statements, outline glued.2 o (some group.chain))) =
        [([5, 12], [(some 11, .catchCall 10), (some 3, .promise)])] := by
    decide +kernel
  exact ⟨hgroups, glue_splices "a.ts" source o b 14⟩

end Unchain.Chain
