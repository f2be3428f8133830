import Unchain.Proofs.Binding.Owned
import Unchain.Proofs.Naming.Distinct

/-!
# Which bindings are renamed, and where

A binding keeps its name unless that is in use when its turn comes, because it is
pinned or because a binding before it in the text has it (`inUse_of_renamed`). A
binding that is renamed is spelled anew at all of its names, whatever is renamed
before and after it (`data?_foldlM_chooseSymbol?`). So there is one spelling for a
binding throughout the tree from which statements are printed. The text outside of
these statements is not printed anew, and may still have the other one.
-/

namespace Unchain.Naming

open Binding (Symbol SymbolId Table)
open Promise (Oracle)
open Syntax (Data Node NodeId Tree)

variable {source t : Tree} {b : Table} {id : SymbolId} {symbol : Symbol} {node : NodeId}
  {name text old new : String} {choice choice' : Choice} {ids : List SymbolId}

/-- The names of a binding: the one that introduces it and those that refer to it. -/
def namesOf (b : Table) (id : SymbolId) : List NodeId :=
  ((b.symbol? id).map fun symbol => symbol.nameNode :: b.referencesOf id).getD []

theorem mem_namesOf : node ∈ namesOf b id ↔
    ∃ symbol, b.symbol? id = some symbol ∧ node ∈ symbol.nameNode :: b.referencesOf id := by
  unfold namesOf
  cases b.symbol? id <;> simp

/-- In a text without errors, a name that refers to a binding belongs to no other one. -/
theorem mem_namesOf_iff_of_reference {fileName source : String}
    (herrors : (SourceFile.ofSource fileName source).errors = [])
    (h : node ∈ (SourceFile.ofSource fileName source).bindings.referencesOf id)
    (other : SymbolId) :
    node ∈ namesOf (SourceFile.ofSource fileName source).bindings other ↔ other = id := by
  obtain ⟨hvalid, hclassifies⟩ := SourceFile.ofSource_classifies fileName source herrors
  obtain ⟨hbottom, -, -⟩ := SourceTree.ofSource_branching fileName source
  obtain ⟨read, htree, hholds, -⟩ := SourceTree.exists_holds herrors
  have hnested : (SourceFile.ofSource fileName source).tree.Nested source.toList :=
    htree ▸ hholds.placed.nested
  rw [mem_namesOf]
  constructor
  · rintro ⟨symbol, hsymbol, hnode⟩
    rcases List.mem_cons.mp hnode with rfl | hnode
    · exact absurd rfl (Table.nameNode_ne_of_reference hnested hbottom.closed h hsymbol)
    · obtain ⟨u, hu, rfl⟩ := List.mem_map.mp ((hclassifies.references id).subset h)
      -- A name refers to one symbol at most, so two symbols with this reference are the same.
      cases hclassifies.records u hu with
      | declares _ hreferences => exact absurd h (hreferences id)
      | @refers found _ _ hreferences =>
        have hfound {id : SymbolId} (h : u.node ∈ (SourceFile.ofSource fileName
            source).bindings.referencesOf id) : id = found := by
          have hcount := List.count_pos_iff.mpr h
          rw [hreferences] at hcount
          by_contra hne
          rw [if_neg hne] at hcount
          exact Nat.lt_irrefl 0 hcount
        exact (hfound hnode).trans (hfound h).symm
      | nothing _ _ hreferences => exact absurd h (hreferences id)
  · rintro rfl
    have hlt : other < (SourceFile.ofSource fileName source).bindings.symbols.size := by
      rw [← hvalid.size_references]
      by_contra hnot
      rw [Table.referencesOf, Array.getElem?_eq_none (Nat.le_of_not_lt hnot)] at h
      cases h
    exact ⟨_, Array.getElem?_eq_getElem hlt, List.mem_cons_of_mem _ h⟩

/-! ### Spelling a binding anew -/

/-- Writing out the key of a name leaves names as they are. -/
theorem data?_spellKey (other : NodeId) (key : String)
    (h : t.data? node = some (.identifier text)) :
    (spellKey t other key).data? node = some (.identifier text) := by
  have hkey {parent : NodeId} {d d' : Data} (hparent : t.data? parent = some d)
      (hd : ∀ text, d ≠ .identifier text) :
      ((addKey t other key).2.setData parent d').data? node = some (.identifier text) := by
    have hne : parent ≠ node := by
      rintro rfl
      exact hd text (Option.some.inj (hparent.symm.trans h))
    rw [Tree.data?_setData, if_neg hne]
    exact (Tree.data?_add_of_lt _ _ _ _ _ (Tree.lt_size_of_data? h)).trans h
  unfold spellKey
  split
  · exact h
  · split
    · next hdata =>
      split
      · exact hkey hdata nofun
      · exact h
    · next hdata =>
      split
      · exact hkey hdata nofun
      · exact h
    · exact h

theorem data?_respell (other : NodeId) (h : t.data? node = some (.identifier text)) :
    (respell old new t other).data? node =
      some (.identifier (if node = other then new else text)) := by
  have hkey := data?_spellKey other old h
  unfold respell
  dsimp only
  by_cases heq : node = other
  · subst heq
    rw [hkey, if_pos rfl]
    simp only
    rw [Tree.data?_setData, if_pos rfl, hkey]
    rfl
  · have hne : other ≠ node := fun h => heq h.symm
    rw [if_neg heq]
    split
    · rw [Tree.data?_setData, if_neg hne, hkey]
    · rw [Tree.data?_setData, if_neg hne, hkey]
    · exact hkey

theorem data?_foldl_respell (nodes : List NodeId) (h : t.data? node = some (.identifier text)) :
    (nodes.foldl (respell old new) t).data? node =
      some (.identifier (if node ∈ nodes then new else text)) := by
  induction nodes generalizing t text with
  | nil => simpa using h
  | cons other rest ih =>
      rw [List.foldl_cons, ih (data?_respell other h)]
      by_cases hrest : node ∈ rest
      · simp [hrest]
      · simp [hrest, List.mem_cons]

/-- Renaming a binding changes the names of the binding and no others. -/
theorem data?_rename (id : SymbolId) (h : t.data? node = some (.identifier text)) :
    (rename b t id new).data? node =
      some (.identifier (if node ∈ namesOf b id then new else text)) := by
  unfold rename namesOf
  cases b.symbol? id with
  | none => simpa using h
  | some symbol => exact data?_foldl_respell _ h

/-! ### One binding after another -/

/-- What choosing the name of a binding does. -/
theorem exists_name_of_chooseSymbol? (h : chooseSymbol? b choice id = some choice') :
    ∃ symbol name, b.symbol? id = some symbol ∧
      choice.register.freeName? symbol.name = some name ∧
      choice' = ⟨choice.register.pin name,
        if name = symbol.name then choice.tree else rename b choice.tree id name,
        choice.names ++ [(id, name)]⟩ := by
  obtain ⟨symbol, hsymbol, h⟩ := Option.bind_eq_some_iff.mp h
  obtain ⟨⟨name, register⟩, hreserve, h⟩ := Option.bind_eq_some_iff.mp h
  obtain ⟨hfree, rfl⟩ := Register.reserve?_eq_some_iff.mp hreserve
  exact ⟨symbol, name, hsymbol, hfree, (Option.some.inj h).symm⟩

/-- The bindings that come later have no name yet. -/
theorem lookup_concat_rest {names : List (SymbolId × String)} {first : SymbolId}
    {rest : List SymbolId} (hids : (first :: rest).Nodup)
    (hnew : ∀ id ∈ first :: rest, names.lookup id = none) (chosen : String) :
    ∀ other ∈ rest, (names ++ [(first, chosen)]).lookup other = none := by
  intro other hother
  have hne : other ≠ first := fun heq => (List.nodup_cons.mp hids).1 (heq ▸ hother)
  rw [lookup_concat, hnew other (List.mem_cons_of_mem _ hother), if_neg hne]
  rfl

/-- A name that was chosen stays. -/
theorem lookup_of_foldlM_chooseSymbol? (h : ids.foldlM (chooseSymbol? b) choice = some choice')
    (hname : choice.names.lookup id = some name) : choice'.names.lookup id = some name := by
  induction ids generalizing choice with
  | nil =>
      obtain rfl := Option.some.inj h
      exact hname
  | cons other rest ih =>
      obtain ⟨middle, hstep, hrest⟩ := Option.bind_eq_some_iff.mp (List.foldlM_cons.symm.trans h)
      obtain ⟨_, chosen, -, -, rfl⟩ := exists_name_of_chooseSymbol? hstep
      exact ih hrest (by rw [lookup_concat, hname, Option.some_or])

/-- A binding that is renamed has a name that was in use at first, or that a binding before it
got. -/
theorem inUse_of_renamed (h : ids.foldlM (chooseSymbol? b) choice = some choice')
    (hids : ids.Nodup) (hnew : ∀ id ∈ ids, choice.names.lookup id = none) (hid : id ∈ ids)
    (hsymbol : b.symbol? id = some symbol) (hname : choice'.names.lookup id = some name)
    (hne : name ≠ symbol.name) : choice.register.isTaken symbol.name = true ∨
      ∃ before after, ids = before ++ id :: after ∧
        ∃ other ∈ before, choice'.names.lookup other = some symbol.name := by
  induction ids generalizing choice with
  | nil => cases hid
  | cons first rest ih =>
      obtain ⟨middle, hstep, hrest⟩ := Option.bind_eq_some_iff.mp (List.foldlM_cons.symm.trans h)
      obtain ⟨symbol', chosen, hsymbol', hfree, rfl⟩ := exists_name_of_chooseSymbol? hstep
      have hchosen : choice'.names.lookup first = some chosen := by
        refine lookup_of_foldlM_chooseSymbol? hrest ?_
        rw [lookup_concat, hnew first List.mem_cons_self, Option.none_or, if_pos rfl]
      rcases List.mem_cons.mp hid with rfl | hid
      · obtain rfl := Option.some.inj (hsymbol.symm.trans hsymbol')
        obtain rfl := Option.some.inj (hname.symm.trans hchosen)
        refine .inl ?_
        unfold Register.freeName? at hfree
        split at hfree
        · next htaken => exact htaken
        · exact absurd (Option.some.inj hfree).symm hne
      · rcases ih hrest (List.nodup_cons.mp hids).2 (lookup_concat_rest hids hnew chosen) hid with
          htaken | ⟨before, after, rfl, other, hother, hlookup⟩
        · rw [Register.isTaken_pin, Bool.or_eq_true, beq_iff_eq] at htaken
          rcases htaken with heq | htaken
          · obtain ⟨before, after, rfl⟩ := List.append_of_mem hid
            exact .inr ⟨first :: before, after, rfl, first, List.mem_cons_self,
              hchosen.trans (congrArg some heq.symm)⟩
          · exact .inl htaken
        · exact .inr ⟨first :: before, after, rfl, other, List.mem_cons_of_mem _ hother, hlookup⟩

/-- A name that belongs to one binding only is spelled as that binding is called. -/
theorem data?_foldlM_chooseSymbol? (h : ids.foldlM (chooseSymbol? b) choice = some choice')
    (hids : ids.Nodup) (hnew : ∀ id ∈ ids, choice.names.lookup id = none)
    (hsymbol : b.symbol? id = some symbol)
    (hnode : ∀ other, node ∈ namesOf b other ↔ other = id)
    (hdata : choice.tree.data? node =
      some (.identifier ((choice.names.lookup id).getD symbol.name))) :
    choice'.tree.data? node =
      some (.identifier ((choice'.names.lookup id).getD symbol.name)) := by
  induction ids generalizing choice with
  | nil =>
      obtain rfl := Option.some.inj h
      exact hdata
  | cons first rest ih =>
      obtain ⟨middle, hstep, hrest⟩ := Option.bind_eq_some_iff.mp (List.foldlM_cons.symm.trans h)
      obtain ⟨symbol', chosen, hsymbol', -, rfl⟩ := exists_name_of_chooseSymbol? hstep
      refine ih hrest (List.nodup_cons.mp hids).2 (lookup_concat_rest hids hnew chosen) ?_
      dsimp only
      rw [lookup_concat]
      by_cases heq : id = first
      · subst heq
        obtain rfl := Option.some.inj (hsymbol.symm.trans hsymbol')
        rw [hnew id List.mem_cons_self] at hdata ⊢
        rw [if_pos rfl, Option.none_or, Option.getD_some]
        split
        · next hkept => rw [hkept, hdata, Option.getD_none]
        · rw [data?_rename id hdata, if_pos ((hnode id).mpr rfl)]
      · rw [if_neg heq, Option.or_none]
        split
        · exact hdata
        · rw [data?_rename first hdata, if_neg fun hmem => heq ((hnode first).mp hmem).symm]

/-! ### The result -/

/-- The symbols that get names, in the order in which they get them. -/
def ownSymbols (source : Tree) (b : Table) (outer : Node) (owners : List NodeId) : List SymbolId :=
  inTextOrder source b ((b.declaredBetween source outer.pos outer.stop).filter
    (belongsTo source b owners))

theorem nodup_ownSymbols (source : Tree) (b : Table) (outer : Node) (owners : List NodeId) :
    (ownSymbols source b outer owners).Nodup :=
  nodup_inTextOrder ((List.nodup_range.sublist List.filter_sublist).sublist List.filter_sublist)

theorem mem_ownSymbols {outer : Node} {owners : List NodeId} :
    id ∈ ownSymbols source b outer owners ↔ id ∈ b.declaredBetween source outer.pos outer.stop ∧
      belongsTo source b owners id = true := by
  rw [ownSymbols, inTextOrder, (Text.stableSort_perm _ _).mem_iff, List.mem_filter]

/-- Which bindings `choose?` renames, and where. A binding whose name is another one than before had
a name that is pinned, or that a binding before it in the text has now. Every name that belongs to
one binding only is spelled as that binding is called, whether it stands in a statement that is
converted or not. -/
theorem renames_choose? {o : Oracle} {function : NodeId} {chains : List NodeId} {tree : Tree}
    {register : Register} (h : choose? source b o function chains t = some (register, tree)) :
    ∃ outer choice, source.node? function = some outer ∧
      let owners := ownersOf function (sitesInOrder source o outer chains t)
      chooseSymbols? source b outer owners t = some choice ∧ choice.tree = tree ∧
      ∀ id symbol name, b.symbol? id = some symbol → choice.names.lookup id = some name →
        (name ≠ symbol.name → Pinned source b outer owners symbol.name ∨
          ∃ before after, ownSymbols source b outer owners = before ++ id :: after ∧
            ∃ other ∈ before, choice.names.lookup other = some symbol.name) ∧
        ∀ node, (∀ other, node ∈ namesOf b other ↔ other = id) →
          t.data? node = some (.identifier symbol.name) →
          tree.data? node = some (.identifier name) := by
  obtain ⟨outer, houter, h⟩ := Option.bind_eq_some_iff.mp h
  obtain ⟨choice, hchoice, h⟩ := Option.bind_eq_some_iff.mp h
  obtain ⟨entered, -, h⟩ := Option.bind_eq_some_iff.mp h
  obtain ⟨-, rfl⟩ := Prod.mk.inj (Option.some.inj h)
  refine ⟨outer, choice, houter, hchoice, rfl, fun id symbol name hsymbol hname =>
    ⟨fun hne => ?_, fun node hnode hdata => ?_⟩⟩
  · have hid := ((of_chooseSymbols? hchoice).2.1 id).mp (Option.isSome_of_eq_some hname)
    refine (inUse_of_renamed hchoice (nodup_ownSymbols ..) (fun _ _ => rfl)
      (mem_ownSymbols.mpr hid) hsymbol hname hne).imp_left fun htaken => mem_pinnedNames.mp ?_
    rcases Bool.or_eq_true_iff.mp ((isTaken_foldl_pin ..).symm.trans htaken) with hpinned | hnone
    · exact List.contains_iff_mem.mp hpinned
    · cases hnone
  · have hspelled := data?_foldlM_chooseSymbol? hchoice (nodup_ownSymbols ..) (fun _ _ => rfl)
      hsymbol hnode hdata
    rwa [hname] at hspelled

/-- The parameter of the second handler is called as that of the first one was. -/
theorem renames_choose?_second :
    let read := SourceFile.ofSource "a.ts" "()=>fetch().then(x=>g(x)).then(x=>k(x))"
    let o := Oracle.ofFile read {}
    ∃ register tree,
      choose? read.tree read.bindings o 20 [19] read.tree = some (register, tree) ∧
        read.tree.data? 16 = some (.identifier "x") ∧
        tree.data? 16 = some (.identifier "x_1") := by
  intro read o
  have hsome : (choose? read.tree read.bindings o 20 [19] read.tree).isSome = true := by
    decide +kernel
  obtain ⟨⟨register, tree⟩, hchoose⟩ := Option.isSome_iff_exists.mp hsome
  have hdata : read.tree.data? 16 = some (.identifier "x") := by decide +kernel
  have hsymbol : read.bindings.symbol? 1 = some ⟨.parameter, "x", 13, 14, 3⟩ := by decide +kernel
  have hnames : (read.tree.node? 20).any (fun outer =>
      (chooseSymbols? read.tree read.bindings outer
        (ownersOf 20 (sitesInOrder read.tree o outer [19] read.tree))
        read.tree).any fun choice => choice.names.lookup 1 = some "x_1") = true := by decide +kernel
  obtain ⟨outer, choice, houter, hchoice, rfl, hrenames⟩ := renames_choose? hchoose
  rw [houter, Option.any_some, hchoice, Option.any_some] at hnames
  obtain ⟨-, hspelled⟩ := hrenames 1 _ "x_1" hsymbol (of_decide_eq_true hnames)
  refine ⟨register, choice.tree, hchoose, hdata, hspelled 16 ?_ hdata⟩
  exact mem_namesOf_iff_of_reference (by decide +kernel) (by decide +kernel)

end Unchain.Naming
