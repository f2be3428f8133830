import Unchain.Proofs.Chain.Homes
import Unchain.Proofs.Chain.Spliced
import Unchain.Proofs.Naming.Entered
import Unchain.Proofs.Naming.Respelled
import Unchain.Proofs.Unroll.Lookups

/-!
# What is looked up has an entry

While the chains of a function are unrolled, only bindings are looked up that a
handler reads or that hold the value of a group (`reads_of_looksUp`). Names were
chosen for the handlers of the chains before the bindings were spelled anew, and
by what the handlers read in the file. Neither makes a difference: spelling anew
adds no handler (`Respells.offers`), and the functions among the handlers stand in
the function under conversion (`below_of_mem_glue`), where the file and the glued
tree hold the same. So every binding that is looked up has an entry
(`isSome_of_looksUp`).
-/

namespace Unchain.Conversion

open Binding (SymbolId Table)
open Chain (Group Root glue rootsOf)
open Naming (Key NamesBound Offers Site siteKey? sitesOf)
open Promise (Oracle)
open Syntax (NodeId Tree)
open Unroll (LooksUp looksUp_of_insert)

variable {t : Tree} {o : Oracle} {b : Table} {function : NodeId} {group : Group} {key : Key}

/-! ### Groups that return a variable -/

theorem result_absorbAll (claimed : Option NodeId) (group : Group) (replaced before : List NodeId) :
    (Chain.absorbAll o b claimed t group replaced before).1.result = group.result := by
  induction before generalizing t group replaced with
  | nil => rfl
  | cons previous rest ih =>
    rw [Chain.absorbAll]
    split
    · rfl
    split
    · next habsorb =>
      obtain ⟨d, symbol, used, -, -, -, rfl⟩ := Chain.of_absorb? habsorb
      exact ih _ _
    · rfl

theorem symbolAt?_of_result_groupOf {root : Root} {claimed : Option NodeId} {id : SymbolId}
    (h : (Chain.groupOf o b t root claimed).1.result = some id) :
    b.symbolAt? root.expression = some id := by
  unfold Chain.groupOf at h
  dsimp only at h
  split at h
  · cases h
  · split at h
    · cases h
    · next symbol hsymbol =>
      rw [result_absorbAll] at h
      rw [hsymbol, ← h]
  · rw [result_absorbAll] at h
    cases h

/-- The variable that a group returns is one that a name is mapped to. -/
theorem exists_symbolAt?_of_mem_glue {roots : List Root} (hgroup : group ∈ (glue o b t roots).1)
    {id : SymbolId} (hid : group.result = some id) : ∃ node, b.symbolAt? node = some id := by
  have hall : ∀ group ∈ (glue o b t roots).1, ∀ id, group.result = some id →
      ∃ node, b.symbolAt? node = some id := by
    refine Chain.glue_induction (motive := fun _ groups _ => ∀ group ∈ groups, ∀ id,
      group.result = some id → ∃ node, b.symbolAt? node = some id) nofun ?_
    rintro earlier groups t root claimed - hearlier
    refine ⟨hearlier, fun group hgroup id hid => ?_⟩
    rcases List.mem_append.mp hgroup with hgroup | hgroup
    · exact hearlier group hgroup id hid
    · obtain rfl := List.mem_singleton.mp hgroup
      exact ⟨root.expression, symbolAt?_of_result_groupOf hid⟩
  exact hall group hgroup id hid

/-- The functions among the handlers of a glued chain stand in the function. -/
theorem below_of_mem_sitesOf_glue (ht : t.Closed) (hbranching : t.Branching)
    (hgroup : group ∈ (glue o b t (rootsOf t o function)).1) {site : Site}
    (hsite : site ∈ sitesOf (glue o b t (rootsOf t o function)).2 o group.chain) {handler : NodeId}
    (hhandler : site.handler = .literal handler) : t.Below function handler ∧
      ∃ k f, t.data? handler = some (.function k f) ∧ (k = .arrow ∨ k = .expression) := by
  obtain ⟨hbelow, k, f, hdata, hk⟩ := Naming.below_of_mem_sitesUpTo hsite hhandler
  obtain ⟨hbelow, hdata⟩ := Chain.below_of_mem_glue ht hbranching hgroup hbelow hdata rfl
  exact ⟨hbelow, k, f, hdata, hk⟩

/-! ### Names of bindings -/

/-- The oracle of a file answers with the bindings of the file. -/
theorem symbolAt?_ofFile (s : SourceFile) (names : Promise.Names) :
    (Oracle.ofFile s names).symbolAt? = s.bindings.symbolAt? := rfl

/-- A name that refers to a symbol is mapped to it. -/
theorem symbolAt?_of_mem_referencesOf {names : List Binding.Use}
    (h : b.Classifies t names) {id : SymbolId} {node : NodeId} (hnode : node ∈ b.referencesOf id) :
    ∃ id', b.symbolAt? node = some id' := by
  obtain ⟨u, hu, rfl⟩ := List.mem_map.mp ((h.references id).subset hnode)
  cases h.records u hu with
  | declares hsymbol => exact ⟨_, hsymbol⟩
  | refers _ hsymbol => exact ⟨_, hsymbol⟩
  | nothing _ _ hreferences => exact absurd hnode (hreferences id)

section

variable {fileName source : String} (herrors : (SourceFile.ofSource fileName source).errors = [])
  (hsymbols : o.symbolAt? = (SourceFile.ofSource fileName source).bindings.symbolAt?)
include herrors hsymbols

/-- The names of bindings are mapped to symbols. -/
theorem namesBound_ofSource : NamesBound o (SourceFile.ofSource fileName source).bindings
    (SourceFile.ofSource fileName source).tree := by
  obtain ⟨hvalid, hclassifies⟩ := SourceFile.ofSource_classifies fileName source herrors
  have horigin := (SourceTree.ofSource_branching fileName source).2.2
  intro id symbol hsymbol node hnode
  obtain ⟨id', hid'⟩ : ∃ id', (SourceFile.ofSource fileName source).bindings.symbolAt? node =
      some id' := by
    rcases List.mem_cons.mp hnode with rfl | hnode
    · exact (SourceFile.ofSource_mapsNames fileName source).symbolAt? hsymbol
    · exact symbolAt?_of_mem_referencesOf hclassifies hnode
  obtain ⟨_, -, hspells⟩ := hvalid.symbol_of_node hid'
  refine ⟨?_, ?_⟩
  · rcases hspells with hdata | hdata <;> exact Tree.lt_size_of_data? hdata
  · rw [show (SourceFile.ofSource fileName source).tree.originOf node = node from horigin node,
      hsymbols, hid']
    rfl

/-- Whatever is looked up while the chains of a function are unrolled has an entry: a binding
without one could get any, and all that is unrolled would stay the same. -/
theorem isSome_of_looksUp {plan : Plan} :
    let s := SourceFile.ofSource fileName source
    let glued := glue o s.bindings s.tree (rootsOf s.tree o function)
    plan? s o function glued.1 glued.2 = some plan →
      LooksUp key (unrollGroups s o function plan.groups) plan.state →
      (plan.state.register.get? key).isSome := by
  intro s glued hplan hlooks
  obtain ⟨hbottom, hbranching, horigin⟩ := SourceTree.ofSource_branching fileName source
  obtain ⟨read, htree, hholds, -⟩ := SourceTree.exists_holds herrors
  have hnested : s.tree.Nested source.toList := htree ▸ hholds.placed.nested
  obtain ⟨hgrafts, hbottom', -, hspliced⟩ := Chain.grafts_glue (o := o) (b := s.bindings) hbottom
    horigin fun root (hroot : root ∈ rootsOf s.tree o function) => Chain.isIn_of_mem_rootsOf hroot
  obtain ⟨⟨register, tree⟩, hchoose, hplanned⟩ := Option.bind_eq_some_iff.mp hplan
  obtain ⟨outer, houter, -⟩ := Option.bind_eq_some_iff.mp hchoose
  have hbound : NamesBound o s.bindings s.tree := namesBound_ofSource herrors hsymbols
  have hrespells : Naming.Respells o glued.2 tree := Naming.respells_choose? hbottom'.closed
    (hbound.mono hgrafts.size_le hgrafts.grows.evolves.originOf) hchoose
  have hchains (group : Group) (hgroup : group ∈ glued.1) : group.chain < glued.2.size := by
    obtain ⟨_, -, _, _, -, -, -, hsplices⟩ := hspliced group hgroup
    exact hsplices.chain_lt
  -- What is looked up in the tree with the new names is what a handler reads there.
  have hreads : ∃ group ∈ glued.1, (∃ site ∈ sitesOf tree o group.chain,
      siteKey? tree s.bindings site = some key) ∨ sinkOf group = .binding key := by
    obtain rfl := Option.some.inj hplanned
    exact Unroll.reads_of_looksUp (hrespells.closed hbottom'.closed) rfl
      (fun group hgroup => Nat.lt_of_lt_of_le (hchains group hgroup) hrespells.size_le) hlooks
  have hoffers : Offers o s.bindings glued.2 tree := hrespells.offers hbottom'.closed
  have hoffers' : Offers o s.bindings s.tree glued.2 :=
    Naming.offers_of_evolves _ hgrafts.grows.evolves hbottom.closed
  have hhandlers {group : Group} (hgroup : group ∈ glued.1) {site : Site}
      (hsite : site ∈ sitesOf glued.2 o group.chain) {handler : NodeId} :
      site.handler = .literal handler → s.tree.Below function handler ∧
        ∃ k f, s.tree.data? handler = some (.function k f) ∧ (k = .arrow ∨ k = .expression) :=
    below_of_mem_sitesOf_glue hbottom.closed hbranching hgroup hsite
  have hlt {group : Group} (hgroup : group ∈ glued.1) {site : Site}
      (hsite : site ∈ sitesOf glued.2 o group.chain) (handler : NodeId)
      (hhandler : site.handler = .literal handler) : handler < s.tree.size := by
    obtain ⟨-, k, f, hdata, -⟩ := hhandlers hgroup hsite hhandler
    exact Tree.lt_size_of_data? hdata
  obtain ⟨group, hgroup, hwhich⟩ := hreads
  refine isSome_of_plan? hplan houter (fun group hgroup site hsite => ?_)
    (fun group hgroup id hid => ?_) ⟨group, hgroup, hwhich.imp_left ?_⟩
  · exact Naming.owned_of_below hnested houter
      (SourceFile.ofSource_introduced fileName source herrors) fun _ => hhandlers hgroup hsite
  · obtain ⟨node, hnode⟩ := exists_symbolAt?_of_mem_glue hgroup hid
    obtain ⟨symbol, hsymbol, -⟩ :=
      (SourceFile.ofSource_classifies fileName source herrors).1.symbol_of_node hnode
    exact Option.isSome_of_eq_some hsymbol
  · rintro ⟨site, hsite, hkey⟩
    have hbefore := hoffers.sitesUpTo_subset hbottom'.closed _ (hchains group hgroup) hsite
    have hold := hlt hgroup hbefore
    rw [hoffers.siteKey?_eq fun handler hhandler =>
        Nat.lt_of_lt_of_le (hold handler hhandler) hgrafts.size_le,
      hoffers'.siteKey?_eq hold] at hkey
    exact ⟨site, hbefore, hkey⟩

end

/-- The name that `h` is called with, in a chain inside a handler, is looked up. -/
theorem isSome_of_looksUp_nested :
    let source := "()=>fetch().then(x=>fetch().then(h))"
    let s := SourceFile.ofSource "a.ts" source
    let o := Oracle.ofFile s {}
    let glued := glue o s.bindings s.tree (rootsOf s.tree o 14)
    s.errors = [] ∧ o.symbolAt? = s.bindings.symbolAt? ∧
      ∃ plan, plan? s o 14 glued.1 glued.2 = some plan ∧
        LooksUp (.minted 10) (unrollGroups s o 14 plan.groups) plan.state ∧
        (plan.state.register.get? (.minted 10)).isSome := by
  intro source s o glued
  have herrors : s.errors = [] := by decide +kernel
  -- The name in front of the call is the one that the entry gives.
  have hnames : (plan? s o 14 glued.1 glued.2).any (fun plan =>
      (((unrollGroups s o 14 plan.groups).run { plan.state with
        register := plan.state.register.insert (.minted 10) "y" }).2.tree.identifierText?
          (some 23)) ≠
      ((unrollGroups s o 14 plan.groups).run plan.state).2.tree.identifierText? (some 23)) =
        true := by decide +kernel
  obtain ⟨plan, hplan, hdiffers⟩ := (Option.any_eq_true ..).mp hnames
  have hlooks : LooksUp (.minted 10) (unrollGroups s o 14 plan.groups) plan.state :=
    looksUp_of_insert "y" fun _ htree => of_decide_eq_true hdiffers (by rw [htree])
  have hsymbols : o.symbolAt? = s.bindings.symbolAt? := symbolAt?_ofFile s {}
  exact ⟨herrors, hsymbols, plan, hplan, hlooks,
    isSome_of_looksUp herrors hsymbols hplan hlooks⟩

end Unchain.Conversion
