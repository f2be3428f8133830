import Mathlib.Data.List.Induction
import Unchain.Proofs.Chain.Grafts
import Unchain.Proofs.Placing.SourceFile

/-!
# Glued groups

A group takes in the statements right before its root that define the variable at
the leaf of its chain. Where a group has taken in a definition, every use of the
variable from that statement on stands inside the group (`uses_within_glue`);
uses before it in the text may stand anywhere.

`Takes` is what taking in one statement needs, `of_absorb?` all that it does and `Glues`
what it preserves.
-/

namespace Unchain.Chain

open Binding (SymbolId Table)
open Promise (Oracle)
open Syntax (Data NodeId Tree)
open Syntax.Tree (lt_size_of_data?)

variable {t t' t₀ : Tree} {o : Oracle} {b : Table} {x : NodeId}

/-! ### Uses of what was taken in -/

/-- A node stands in a statement of the group. -/
def Group.Covers (t : Tree) (group : Group) (id : NodeId) : Prop :=
  ∃ statement ∈ group.statements, t.Below statement id

/-- A node starts where another one does, or later. -/
def StartsFrom (t : Tree) (first id : NodeId) : Prop :=
  ∃ m n, t.node? first = some m ∧ t.node? id = some n ∧ m.pos ≤ n.pos

/-- The statement defines a variable whose uses from there on all stand in the group. -/
def Group.Settles (t : Tree) (b : Table) (group : Group) (statement : NodeId) : Prop :=
  ∃ d symbol, definition? t statement = some d ∧ b.symbolAt? d.target = some symbol ∧
    ∀ use ∈ b.referencesOf symbol, StartsFrom t statement use → group.Covers t use

section

variable {group group' : Group} {id statement : NodeId}

theorem Group.Covers.mono (h : group.Covers t id)
    (hsub : group.statements ⊆ group'.statements) : group'.Covers t id := by
  obtain ⟨statement, hmem, hbelow⟩ := h
  exact ⟨statement, hsub hmem, hbelow⟩

theorem Group.Settles.mono (h : group.Settles t b statement)
    (hsub : group.statements ⊆ group'.statements) : group'.Settles t b statement := by
  obtain ⟨d, symbol, hd, hsymbol, huses⟩ := h
  exact ⟨d, symbol, hd, hsymbol, fun use hmem hstarts => (huses use hmem hstarts).mono hsub⟩

theorem lt_size_of_below (ht : t.Closed) (hid : id < t.size) (h : t.Below id x) : x < t.size := by
  induction h with
  | refl => exact hid
  | @child parent child _ hc ih =>
    obtain ⟨n, hn⟩ := Tree.node?_eq_some_of_lt ih
    rw [Tree.children_of_node? hn] at hc
    exact ht.child_lt (Tree.data?_of_node? hn) hc

theorem of_areUsesSettled {symbol : SymbolId} {start : NodeId} {replaced : List NodeId}
    {valueLeaf : Option NodeId} (h : areUsesSettled b t symbol start replaced valueLeaf = true)
    {use : NodeId} (huse : use ∈ b.referencesOf symbol) (hstarts : StartsFrom t start use) :
    some use = valueLeaf ∨ use ∈ replaced := by
  obtain ⟨m, n, hm, hn, hle⟩ := hstarts
  have hall := List.all_eq_true.mp h use huse
  rw [hm, hn, Option.any_some, Option.map_some, Option.getD_some, decide_eq_true hle] at hall
  simpa using hall

/-- What has to hold for a group to take in a statement, which defines the variable at the leaf of
its chain; `replaced` are the uses that are replaced then. -/
structure Takes (o : Oracle) (b : Table) (t : Tree) (group : Group) (replaced : List NodeId)
    (previous : NodeId) (d : Definition) (symbol : SymbolId) (used : NodeId) : Prop where
  defines : definition? t previous = some d
  target : b.symbolAt? d.target = some symbol
  leaf : leaf t o (some group.chain) = some used
  isIdentifier : t.isIdentifier used = true
  use : b.symbolAt? (t.originOf used) = some symbol
  isPromise : isPromise t o (some d.value) = true
  settled : areUsesSettled b t symbol previous replaced
    ((Chain.leaf t o (some d.value)).map t.originOf) = true

/-- All that taking in a statement does. -/
theorem of_absorb? {replaced replaced' : List NodeId} {previous : NodeId}
    (h : absorb? o b t group replaced previous = some (group', replaced', t')) :
    ∃ d symbol used, Takes o b t group replaced' previous d symbol used ∧
      replaced' = (if d.declares then [] else [d.target]) ++ t.originOf used :: replaced ∧
      t' = (substitute t group.chain used d.value).2 ∧
      group' = { group with
        statements := previous :: group.statements
        chain := (substitute t group.chain used d.value).1 } := by
  obtain ⟨d, hd, h⟩ := Option.bind_eq_some_iff.mp h
  obtain ⟨symbol, hsymbol, h⟩ := Option.bind_eq_some_iff.mp h
  obtain ⟨used, hused, h⟩ := Option.bind_eq_some_iff.mp h
  dsimp only at h
  obtain ⟨hguard, h⟩ := Option.ite_none_right_eq_some.mp h
  simp only [Bool.and_eq_true, beq_iff_eq] at hguard
  obtain ⟨⟨⟨hname, huse⟩, hpromise⟩, hsettled⟩ := hguard
  cases h
  exact ⟨d, symbol, used, ⟨hd, hsymbol, hused, hname, huse, hpromise, hsettled⟩, rfl, rfl, rfl⟩

/-- What holds of a group and is kept by each statement that it takes in holds in the end. The group
takes in the first of the statements. -/
theorem absorbAll_induction {motive : List NodeId → Tree → Group → List NodeId → Prop}
    (claimed : Option NodeId) (before replaced : List NodeId) (h : motive [] t group replaced)
    (step : ∀ {taken t group replaced previous group' replaced' t'}, previous ∈ before →
      motive taken t group replaced →
      absorb? o b t group replaced previous = some (group', replaced', t') →
      motive (taken ++ [previous]) t' group' replaced') :
    ∃ taken replaced', taken <+: before ∧ motive taken
      (absorbAll o b claimed t group replaced before).2
      (absorbAll o b claimed t group replaced before).1 replaced' := by
  induction before generalizing motive t group replaced with
  | nil => exact ⟨[], replaced, List.nil_prefix, h⟩
  | cons previous rest ih =>
    rw [absorbAll]
    split
    · exact ⟨[], replaced, List.nil_prefix, h⟩
    split
    · next group' replaced' t' habsorb =>
      have hfirst : motive [previous] t' group' replaced' := step List.mem_cons_self h habsorb
      obtain ⟨taken, replaced'', hnearest, hlast⟩ :=
        ih (motive := fun taken => motive (previous :: taken)) replaced' hfirst
          fun hmem => step (List.mem_cons_of_mem previous hmem)
      exact ⟨previous :: taken, replaced'', List.cons_prefix_cons.mpr ⟨rfl, hnearest⟩, hlast⟩
    · exact ⟨[], replaced, List.nil_prefix, h⟩

/-- A group starts with its root and takes in some of the statements before it, if any. -/
theorem exists_groupOf_eq (o : Oracle) (b : Table) (t : Tree) (root : Root)
    (claimed : Option NodeId) :
    ∃ result replaced before, (∀ use ∈ replaced, use = root.expression) ∧
      before <+: statementsBefore t root.node ∧
      groupOf o b t root claimed = absorbAll o b claimed t
        ⟨[root.node], root.expression, root.kind, result⟩ replaced before := by
  unfold groupOf
  dsimp only
  split
  · exact ⟨none, [], [], nofun, List.nil_prefix, rfl⟩
  · split
    · exact ⟨none, [], [], nofun, List.nil_prefix, rfl⟩
    · next symbol _ =>
      exact ⟨some symbol, [root.expression], _, fun _ => List.mem_singleton.mp, List.prefix_rfl,
        rfl⟩
  · exact ⟨none, [], _, nofun, List.prefix_rfl, rfl⟩

/-- What holds of the groups of no roots and is kept by each root, whether its group is added or
not, holds of the groups of all roots. -/
theorem glue_induction {motive : List Root → List Group → Tree → Prop} {roots : List Root}
    (h : motive [] [] t)
    (step : ∀ {earlier groups t} (root) (claimed), root ∈ roots → motive earlier groups t →
      motive (earlier ++ [root]) groups (groupOf o b t root claimed).2 ∧
        motive (earlier ++ [root]) (groups ++ [(groupOf o b t root claimed).1])
          (groupOf o b t root claimed).2) :
    motive roots (glue o b t roots).1 (glue o b t roots).2 := by
  induction roots using List.reverseRecOn with
  | nil => exact h
  | append_singleton earlier root ih =>
    have hearlier := ih fun root claimed hmem => step root claimed (List.mem_append_left _ hmem)
    rw [glue, List.foldl_append, List.foldl_cons, List.foldl_nil, ← glue, glueRoot]
    have hroot := step root ((glue o b t earlier).1.getLast?.bind Group.root?)
      (List.mem_append_right _ (List.mem_singleton.mpr rfl)) hearlier
    dsimp only
    split
    · exact hroot.1
    · exact hroot.2

end

/-- While a group takes in statements: the names that its chain goes on through and the uses that
it replaces stand in it, and so do the uses of what it has taken in. The tree was `t₀` before. -/
structure Glues (t₀ : Tree) (b : Table) (root : NodeId) (t : Tree) (group : Group)
    (replaced : List NodeId) : Prop where
  grafts : Grafts t₀ t
  lt_size : ∀ statement ∈ group.statements, statement < t₀.size
  statements : ∃ absorbed, group.statements = absorbed ++ [root] ∧
    ∀ statement ∈ absorbed, group.Settles t₀ b statement
  chain : ∀ x, Continues t group.chain x → t.isIdentifier x = true → group.Covers t₀ x
  replaced : ∀ use ∈ replaced, group.Covers t₀ use

section

variable {root previous : NodeId} {group group' : Group} {replaced replaced' : List NodeId}
  (ht : t₀.Closed) (horigin : ∀ id, t₀.originOf id = id)
include ht horigin

namespace Glues

/-- A name that the group covers is its own origin. -/
theorem originOf_eq (h : Glues t₀ b root t group replaced) (hx : group.Covers t₀ x) :
    t.originOf x = x := by
  obtain ⟨statement, hmem, hbelow⟩ := hx
  have hlt := lt_size_of_below ht (h.lt_size statement hmem) hbelow
  exact (h.grafts.grows.evolves.originOf hlt).trans (horigin x)

/-- What the value of a definition goes on through stands in its statement. -/
theorem below_of_continues_value (h : Glues t₀ b root t group replaced)
    (hprevious : previous < t₀.size) {d : Definition} (hd : definition? t previous = some d)
    (hx : Continues t d.value x) : t₀.Below previous x ∧ t.originOf x = x := by
  have hvalue := (below_of_definition? ((h.grafts.definition? ht hprevious).symm.trans hd)).2
  obtain ⟨hx, hlt⟩ := h.grafts.continues ht (lt_size_of_below ht hprevious hvalue) hx
  exact ⟨hvalue.trans hx.is_below, (h.grafts.grows.evolves.originOf hlt).trans (horigin x)⟩

/-- The uses that are replaced after a statement is taken in stand in the group. -/
theorem covers_replaced (h : Glues t₀ b root t group replaced) (hprevious : previous < t₀.size)
    (habsorb : absorb? o b t group replaced previous = some (group', replaced', t')) {use : NodeId}
    (huse : use ∈ replaced') : group'.Covers t₀ use := by
  obtain ⟨d, symbol, used, htakes, rfl, -, rfl⟩ := of_absorb? habsorb
  have hsub : group.statements ⊆ previous :: group.statements := List.subset_cons_self _ _
  rcases List.mem_append.mp huse with hmem | hmem
  · split at hmem
    · cases hmem
    · obtain rfl := List.mem_singleton.mp hmem
      have hd₀ := (h.grafts.definition? ht hprevious).symm.trans htakes.defines
      exact ⟨previous, List.mem_cons_self, (below_of_definition? hd₀).1⟩
  rcases List.mem_cons.mp hmem with rfl | hmem
  · have hcovers := h.chain used (continues_leaf htakes.leaf) htakes.isIdentifier
    rw [h.originOf_eq ht horigin hcovers]
    exact hcovers.mono hsub
  · exact (h.replaced use hmem).mono hsub

/-- A group settles the statement that it takes in. -/
theorem settles (h : Glues t₀ b root t group replaced) (hprevious : previous < t₀.size)
    (habsorb : absorb? o b t group replaced previous = some (group', replaced', t')) :
    group'.Settles t₀ b previous := by
  have hreplaced {use : NodeId} : use ∈ replaced' → group'.Covers t₀ use :=
    h.covers_replaced ht horigin hprevious habsorb
  obtain ⟨d, symbol, used, htakes, -, -, rfl⟩ := of_absorb? habsorb
  refine ⟨d, symbol, (h.grafts.definition? ht hprevious).symm.trans htakes.defines, htakes.target,
    fun use huse hstarts => ?_⟩
  obtain ⟨m, n, hm, hn, hle⟩ := hstarts
  obtain ⟨p, hm⟩ := h.grafts.grows.node hm
  obtain ⟨q, hn⟩ := h.grafts.grows.node hn
  rcases of_areUsesSettled htakes.settled huse ⟨_, _, hm, hn, hle⟩ with hleaf | hmem
  · -- The value reads what the variable held before.
    obtain ⟨inner, hinner, rfl⟩ := Option.map_eq_some_iff.mp hleaf.symm
    obtain ⟨hbelow, hsame⟩ :=
      h.below_of_continues_value ht horigin hprevious htakes.defines (continues_leaf hinner)
    rw [hsame]
    exact ⟨previous, List.mem_cons_self, hbelow⟩
  · exact hreplaced hmem

theorem absorb? (h : Glues t₀ b root t group replaced) (hprevious : previous < t₀.size)
    (habsorb : absorb? o b t group replaced previous = some (group', replaced', t')) :
    Glues t₀ b root t' group' replaced' := by
  have hreplaced := fun use (huse : use ∈ replaced') =>
    h.covers_replaced ht horigin hprevious habsorb huse
  have hsettles := h.settles ht horigin hprevious habsorb
  obtain ⟨d, symbol, used, htakes, -, rfl, rfl⟩ := of_absorb? habsorb
  obtain ⟨absorbed, hstatements, habsorbed⟩ := h.statements
  obtain ⟨hgrafts, hcontinues⟩ := substituteUpTo_spec used d.value (t.size + 1) group.chain t
  have hsub : group.statements ⊆ previous :: group.statements := List.subset_cons_self _ _
  refine ⟨h.grafts.trans hgrafts, ?_, ⟨previous :: absorbed, ?_, ?_⟩, ?_, hreplaced⟩
  · intro statement hmem
    rcases List.mem_cons.mp hmem with rfl | hmem
    · exact hprevious
    · exact h.lt_size statement hmem
  · exact congrArg (previous :: ·) hstatements
  · intro statement hmem
    rcases List.mem_cons.mp hmem with rfl | hmem
    · exact hsettles
    · exact (habsorbed statement hmem).mono hsub
  · intro x hx hname
    have hold := hgrafts.lt_of_isIdentifier hname
    rcases hcontinues x hx hname with hx | hx
    · refine (h.chain x hx ?_).mono hsub
      rw [← hgrafts.grows.evolves.isIdentifier hold]
      exact hname
    · exact ⟨previous, List.mem_cons_self,
        (h.below_of_continues_value ht horigin hprevious htakes.defines hx).1⟩

end Glues

/-- Taking in statements leaves the tree with more links and the group with its uses. The statements
that were taken in are the nearest before the group. -/
theorem Glues.absorbAll (claimed : Option NodeId) {before : List NodeId}
    (h : Glues t₀ b root t group replaced) (hbefore : ∀ previous ∈ before, previous < t₀.size) :
    ∃ taken replaced', taken <+: before ∧
      Glues t₀ b root (absorbAll o b claimed t group replaced before).2
        (absorbAll o b claimed t group replaced before).1 replaced' ∧
      (absorbAll o b claimed t group replaced before).1.statements =
        taken.reverse ++ group.statements := by
  refine absorbAll_induction (motive := fun taken t group' replaced =>
    Glues t₀ b root t group' replaced ∧ group'.statements = taken.reverse ++ group.statements)
    claimed before replaced ⟨h, rfl⟩ ?_
  rintro taken t group' replaced previous group'' replaced' t' hmem ⟨hglues, hstatements⟩ habsorb
  refine ⟨hglues.absorb? ht horigin (hbefore previous hmem) habsorb, ?_⟩
  obtain ⟨d, symbol, used, -, -, -, rfl⟩ := of_absorb? habsorb
  simp [hstatements]

end

/-! ### Whole groups -/

theorem lt_size_of_mem_statementsBefore (ht : t.Closed) {statement previous : NodeId}
    (h : previous ∈ statementsBefore t statement) : previous < t.size := by
  unfold statementsBefore at h
  split at h
  · next list hlist =>
    obtain ⟨parent, -, hlist⟩ := Option.bind_eq_some_iff.mp hlist
    split at h
    · exact ht.statement_lt hlist
        ((List.takeWhile_sublist _).subset (List.mem_reverse.mp h))
    · cases h
  · cases h

/-- A group ends with a root, and it has the nearest statements before the root, of which it settles
what they define. -/
def Group.IsSettled (t : Tree) (b : Table) (group : Group) : Prop :=
  ∃ root taken, group.statements = taken.reverse ++ [root] ∧ taken <+: statementsBefore t root ∧
    ∀ statement ∈ taken, group.Settles t b statement

/-- The expression of a root stands in its statement. -/
def Root.IsIn (t : Tree) (root : Root) : Prop :=
  root.node < t.size ∧ t.Below root.node root.expression

theorem isIn_of_rootOf? {statement : NodeId} {root : Root} (h : rootOf? t o statement = some root) :
    root.IsIn t := by
  have hin {e : NodeId} {data : Data} (hdata : t.data? statement = some data)
      (hmem : e ∈ data.children) : statement < t.size ∧ t.Below statement e :=
    ⟨lt_size_of_data? hdata, .of_data? hdata hmem⟩
  unfold rootOf? at h
  split at h
  · next e hdata =>
    have hreturned := hin hdata (e := e) (by simp [Data.children])
    split at h
    · cases h
      exact hreturned
    · obtain ⟨-, h⟩ := Option.ite_none_right_eq_some.mp h
      cases h
      exact hreturned
  · next e hdata =>
    obtain ⟨-, h⟩ := Option.ite_none_right_eq_some.mp h
    cases h
    exact hin hdata (by simp [Data.children])
  · cases h

theorem isIn_of_mem_rootsOf {function : NodeId} {root : Root} (h : root ∈ rootsOf t o function) :
    root.IsIn t := by
  unfold rootsOf at h
  split at h
  · cases h
  · next body hbody =>
    split at h
    · cases h
    · obtain ⟨statement, -, hroot⟩ := List.mem_filterMap.mp h
      exact isIn_of_rootOf? hroot
    · next data hdata =>
      split at h
      · obtain rfl := List.mem_singleton.mp h
        exact ⟨lt_size_of_data? hdata, .refl⟩
      · cases h

section

variable (ht : t₀.Closed) (horigin : ∀ id, t₀.originOf id = id)
include ht

/-- A group of its root only. -/
theorem glues_root {root : Root} (h : Grafts t₀ t) (hroot : root.IsIn t₀) {replaced : List NodeId}
    (hreplaced : ∀ use ∈ replaced, use = root.expression) (result : Option SymbolId) :
    Glues t₀ b root.node t ⟨[root.node], root.expression, root.kind, result⟩ replaced := by
  obtain ⟨hlt, hbelow⟩ := hroot
  refine ⟨h, ?_, ⟨[], rfl, nofun⟩, fun x hx _ => ?_, fun use huse => ?_⟩
  · intro statement hmem
    obtain rfl := List.mem_singleton.mp hmem
    exact hlt
  · have hx := (h.continues ht (lt_size_of_below ht hlt hbelow) hx).1
    exact ⟨root.node, List.mem_singleton.mpr rfl, hbelow.trans hx.is_below⟩
  · obtain rfl := hreplaced use huse
    exact ⟨root.node, List.mem_singleton.mpr rfl, hbelow⟩

include horigin

theorem isSettled_groupOf {root : Root} (h : Grafts t₀ t) (hroot : root.IsIn t₀)
    (claimed : Option NodeId) : Grafts t₀ (groupOf o b t root claimed).2 ∧
      (groupOf o b t root claimed).1.IsSettled t₀ b := by
  obtain ⟨result, replaced, before, hreplaced, hbefore, hgroup⟩ :=
    exists_groupOf_eq o b t root claimed
  have hbefore₀ := h.prefix_statementsBefore hroot.1 hbefore
  obtain ⟨taken, replaced', hnearest, hglues, htaken⟩ :=
    (glues_root ht h hroot hreplaced result).absorbAll (o := o) ht horigin claimed
      fun previous hmem => lt_size_of_mem_statementsBefore ht (hbefore₀.subset hmem)
  obtain ⟨absorbed, hsplit, habsorbed⟩ := hglues.statements
  obtain rfl := List.append_cancel_right (htaken.symm.trans hsplit)
  rw [hgroup]
  exact ⟨hglues.grafts, root.node, taken, htaken, hnearest.trans hbefore₀, fun statement hmem =>
    habsorbed statement (List.mem_reverse.mpr hmem)⟩

/-- Every group is settled, whatever the roots are. -/
theorem isSettled_of_mem_glue {roots : List Root} (hroots : ∀ root ∈ roots, root.IsIn t₀) :
    ∀ group ∈ (glue o b t₀ roots).1, group.IsSettled t₀ b := by
  refine (glue_induction (motive := fun _ groups t =>
    Grafts t₀ t ∧ ∀ group ∈ groups, group.IsSettled t₀ b) ⟨.refl t₀, nofun⟩ ?_).2
  rintro _ groups t root claimed hmem ⟨hgrafts, hearlier⟩
  obtain ⟨hgrafts', hsettled⟩ :=
    isSettled_groupOf (o := o) (b := b) ht horigin hgrafts (hroots root hmem) claimed
  refine ⟨⟨hgrafts', hearlier⟩, hgrafts', fun group hmem => ?_⟩
  rcases List.mem_append.mp hmem with hmem | hmem
  · exact hearlier group hmem
  · obtain rfl := List.mem_singleton.mp hmem
    exact hsettled

end

/-- A group of a function ends with a root and has statements right before it. Each of these defines
a variable, and every use of the variable that starts with the statement or later stands in the
group. -/
theorem uses_within_glue {fileName source : String} (o : Oracle) (b : Table) (function : NodeId) :
    let t := (SourceTree.ofSource fileName source).tree
    ∀ group ∈ (glue o b t (rootsOf t o function)).1, ∃ root taken,
      group.statements = taken.reverse ++ [root] ∧ taken <+: statementsBefore t root ∧
      ∀ statement ∈ taken, ∃ d symbol, definition? t statement = some d ∧
        b.symbolAt? d.target = some symbol ∧
        ∀ use ∈ b.referencesOf symbol, StartsFrom t statement use →
          ∃ around ∈ group.statements, t.Below around use := by
  intro t group hgroup
  obtain ⟨hage, -, horigin⟩ := SourceTree.ofSource_branching fileName source
  exact isSettled_of_mem_glue hage.closed horigin (fun root => isIn_of_mem_rootsOf) group hgroup

/-- The group takes in the declaration of `p`, and with it the use of `p` at the leaf of the
chain. -/
theorem uses_within_glue_declared :
    let s := SourceFile.ofSource "a.ts" "()=>{const p=fetch();p.then(h)}"
    let o := Oracle.ofFile s {}
    ∃ group ∈ (glue o s.bindings s.tree (rootsOf s.tree o 12)).1, group.statements = [4, 10] ∧
      ∃ root taken, group.statements = taken.reverse ++ [root] ∧
        taken <+: statementsBefore s.tree root ∧
        ∀ statement ∈ taken, ∃ d symbol, definition? s.tree statement = some d ∧
          s.bindings.symbolAt? d.target = some symbol ∧
          ∀ use ∈ s.bindings.referencesOf symbol, StartsFrom s.tree statement use →
            ∃ around ∈ group.statements, s.tree.Below around use := by
  intro s o
  have hgroups : (glue o s.bindings s.tree (rootsOf s.tree o 12)).1.any
      (fun group => group.statements = [4, 10]) = true := by decide +kernel
  obtain ⟨group, hgroup, hstatements⟩ := List.any_eq_true.mp hgroups
  exact ⟨group, hgroup, of_decide_eq_true hstatements,
    @uses_within_glue "a.ts" "()=>{const p=fetch();p.then(h)}" o s.bindings 12 group hgroup⟩

/-- A use that starts before the definition may be left over. Here a group takes in `var p=fetch();`
although the arrow before it reads `p`. -/
example :
    let s := SourceFile.ofSource "a.ts" "function f(){g(()=>p);var p=fetch();p.then(h)}"
    let o := Oracle.ofFile s {}
    (glue o s.bindings s.tree (rootsOf s.tree o 18)).1.map Group.statements = [[10, 16]] ∧
      definition? s.tree 10 = some ⟨6, 8, true⟩ ∧
      (s.bindings.symbolAt? 6).map s.bindings.referencesOf = some [2, 11] ∧
      [10, 16].all fun statement => !(s.tree.preorder statement).contains 2 := by
  decide +kernel

end Unchain.Chain
