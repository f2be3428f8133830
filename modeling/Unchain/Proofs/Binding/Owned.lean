import Unchain.Proofs.Binding.Resolved

/-!
# Parameters and what they are called

A name that is introduced is mapped to a symbol (`SourceFile.ofSource_mapsNames`).

The one parameter of a function that is an expression is declared in a scope
that has just been opened. At most the name of the function itself is bound
there, so the symbol of the parameter is introduced by the parameter or by that
name (`SourceFile.ofSource_introduced`).

Both are about what the walk that declares keeps. `Kept` says which steps have to
keep it, and `preserves_declareUpTo` that it is kept then; a function one of
whose parameters has the name `x` may be looked at apart.
-/

namespace Unchain.Binding

open Syntax (Data NodeId Tree)

variable {α β : Type} {t : Tree} {x : NodeId}

/-! ### Steps that keep a property of the table -/

/-- From a table with the property the step leads to one with the property `J` of its answer. -/
def Leads (I : Table → Prop) (step : Binder α) (J : α → Table → Prop) : Prop :=
  ∀ b, I b → J (step.run b).1 (step.run b).2

/-- The step keeps the property. -/
abbrev Preserves (I : Table → Prop) (step : Binder α) : Prop := Leads I step fun _ => I

namespace Leads

variable {I : Table → Prop} {J : α → Table → Prop} {J' : β → Table → Prop} {step : Binder α}
  {f : α → Binder β}

theorem pure {a : α} (h : ∀ b, I b → J a b) : Leads I (pure a) J := h

theorem bind (hstep : Leads I step J) (hf : ∀ a, Leads (J a) (f a) J') : Leads I (step >>= f) J' :=
  fun b hb => hf _ _ (hstep b hb)

theorem ite {c : Prop} [Decidable c] {step' : Binder α} (hstep : c → Leads I step J)
    (hstep' : ¬ c → Leads I step' J) : Leads I (if c then step else step') J := by
  split
  · next h => exact hstep h
  · next h => exact hstep' h

/-- A step that is taken or left out before another. -/
theorem optional {c : Prop} [Decidable c] {step : Binder Unit} {f : Unit → Binder β}
    (hstep : c → Preserves I step) (hf : Leads I (f ()) J') :
    Leads I (if c then step >>= f else f ()) J' :=
  .ite (fun h => (hstep h).bind fun _ => hf) fun _ => hf

theorem forM {γ : Type} {step : γ → Binder Unit} {list : List γ}
    (h : ∀ a ∈ list, Preserves I (step a)) : Preserves I (list.forM step) := by
  induction list with
  | nil => exact pure fun _ hb => hb
  | cons a rest ih =>
    exact (h a List.mem_cons_self).bind fun _ => ih fun c hc => h c (List.mem_cons_of_mem a hc)

end Leads

/-- What opening and sharing a scope keeps, and declaring a name other than `x`. -/
structure Kept (t : Tree) (x : NodeId) (I : Table → Prop) : Prop where
  opened : ∀ {b} kind node parent, I b → I (b.opened kind node parent)
  shared : ∀ {b} node scope, I b →
    I { b with nodeScopes := b.nodeScopes.setIfInBounds node (some scope) }
  declared : ∀ {node text} scope kind declaration, Spells t node text → node ≠ x →
    Preserves I (declareName scope kind text node declaration)

/-! ### The walk that declares -/

/-- A name of a pattern is what is given as the pattern, or the name of an element. -/
theorem ne_of_mem_bindingPartsUpTo {fuel : Nat} {declaration : NodeId} {name : Option NodeId}
    {text : String} {node declaration' : NodeId} (hname : name ≠ some x)
    (helement : ∀ id isRest key initializer,
      t.data? id ≠ some (.bindingElement isRest key (some x) initializer))
    (h : .name text node declaration' ∈ bindingPartsUpTo t fuel declaration name) : node ≠ x := by
  induction fuel generalizing declaration name with
  | zero => cases h
  | succ fuel ih =>
    have hnode {id : NodeId} {d : Data}
        (hpart : (name.bind fun id => (t.data? id).map (id, ·)) = some (id, d)) : id ≠ x := by
      obtain ⟨id', hid, hmap⟩ := Option.bind_eq_some_iff.mp hpart
      obtain ⟨d', -, heq⟩ := Option.map_eq_some_iff.mp hmap
      obtain ⟨rfl, -⟩ := Prod.mk.inj heq
      exact fun heq => hname (heq ▸ hid)
    rw [bindingPartsUpTo] at h
    split at h
    · next hpart =>
      obtain ⟨rfl, rfl, rfl⟩ := BindingPart.name.inj (List.mem_singleton.mp h)
      exact hnode hpart
    · next hpart =>
      obtain ⟨rfl, rfl, rfl⟩ := BindingPart.name.inj (List.mem_singleton.mp h)
      exact hnode hpart
    · obtain ⟨element, -, hmem⟩ := List.mem_flatMap.mp h
      split at hmem
      · next isRest key name initializer hdata =>
        rcases List.mem_append.mp hmem with hmem | hmem
        · rcases List.mem_append.mp hmem with hmem | hmem
          · split at hmem
            · obtain ⟨_, -, heq⟩ := List.mem_map.mp hmem
              cases heq
            · cases hmem
          · exact ih (fun heq => helement _ _ _ _ (heq ▸ hdata)) hmem
        · obtain ⟨_, -, heq⟩ := List.mem_map.mp hmem
          cases heq
      · cases hmem
    · cases h

section

variable {I : Table → Prop} (hI : Kept t x I)
include hI

theorem preserves_openScope {kind : ScopeKind} {node : NodeId} {parent : Option ScopeId} :
    Preserves I (openScope kind node parent) :=
  fun _ hb => hI.opened kind node parent hb

theorem preserves_shareScope {node : NodeId} {scope : ScopeId} :
    Preserves I (shareScope node scope) :=
  fun _ hb => hI.shared node scope hb

-- The name `x` is at most that of a parameter.
variable (hx : ∀ {id : NodeId} {d : Data}, t.data? id = some d → x ∈ d.children →
  ∃ p, d = .parameter p)
include hx

theorem preserves_declarePattern {visit : NodeId → Binder Unit} {target : ScopeId}
    {kind : SymbolKind} {declaration : NodeId} {name : Option NodeId}
    (hvisit : ∀ node, Preserves I (visit node)) (hname : name ≠ some x) :
    Preserves I (declarePattern t visit target kind declaration name) := by
  refine .forM fun part hpart => ?_
  cases part with
  | expression node => exact hvisit node
  | name text node declaration' =>
    refine hI.declared _ _ _ (spells_of_mem_bindingPartsUpTo hpart)
      (ne_of_mem_bindingPartsUpTo hname (fun id isRest key initializer hdata => ?_) hpart)
    obtain ⟨p, hp⟩ := hx hdata (by simp [Data.children])
    cases hp

omit hI in
/-- Other nodes than parameters are not called `x`. -/
theorem name_ne {id : NodeId} {d : Data} {name : Option NodeId} (hdata : t.data? id = some d)
    (hd : ∀ p, d ≠ .parameter p) (hname : ∀ y, name = some y → y ∈ d.children) :
    name ≠ some x := by
  intro heq
  obtain ⟨p, hp⟩ := hx hdata (hname x heq)
  exact hd p hp

-- A function that has a parameter of the name `x` is looked at apart.
variable (hfunction : ∀ {fuel k f} {h : NodeId}, t.data? h = some (.function k f) →
  (∃ parameter ∈ f.parameters.nodes, ∃ p, t.data? parameter = some (.parameter p) ∧
    p.name = some x) →
  (∀ scope node, Preserves I (declareUpTo t fuel scope node)) →
  ∀ scope, Preserves I (declareUpTo t (fuel + 1) scope h))
include hfunction

/-- Declaring keeps what its steps keep. -/
theorem preserves_declareUpTo (fuel : Nat) (scope : ScopeId) (id : NodeId) :
    Preserves I (declareUpTo t fuel scope id) := by
  induction fuel generalizing scope id with
  | zero => exact .pure fun _ hb => hb
  | succ fuel ih =>
    have hpart (scope : ScopeId) (part : Option NodeId) :
        Preserves I (part.toList.forM (declareUpTo t fuel scope)) :=
      .forM fun node _ => ih scope node
    have hpattern {visited target : ScopeId} {kind : SymbolKind} {declaration : NodeId}
        {name : Option NodeId} (hname : name ≠ some x) :
        Preserves I (declarePattern t (declareUpTo t fuel visited) target kind declaration name) :=
      preserves_declarePattern hI hx (ih visited) hname
    -- Only a function with the parameter `x` may bind `x`; all other names are other nodes.
    by_cases hexceptional : ∃ k f, t.data? id = some (.function k f) ∧
        ∃ parameter ∈ f.parameters.nodes, ∃ p, t.data? parameter = some (.parameter p) ∧
          p.name = some x
    · obtain ⟨k, f, hdata, hparameter⟩ := hexceptional
      exact hfunction hdata hparameter ih scope
    rw [declareUpTo]
    split
    · next node hnode =>
      have hdata := Tree.data?_of_node? hnode
      split
      · next kind f hf =>
        rw [hf] at hdata
        have hname : f.name ≠ some x :=
          name_ne hx hdata (by simp) (by simp +contextual [Data.children])
        refine .optional (fun _ => hpattern hname) (.bind (preserves_openScope hI) fun inner => ?_)
        refine .optional (fun _ => hpattern hname) (.optional (fun _ => hpart _ _)
          (.bind (.forM fun parameter hparameter => ?_) fun _ => ?_))
        · split
          · next p hp =>
            refine .optional (fun _ => hpattern fun heq => ?_) (hpart _ _)
            exact hexceptional ⟨kind, f, hdata, parameter, hparameter, p, hp, heq⟩
          · exact .pure fun _ hb => hb
        · split
          · exact .bind (.forM fun _ _ => preserves_shareScope hI) fun _ =>
              .forM fun node _ => ih _ node
          · exact hpart _ _
      · next kind c hc =>
        rw [hc] at hdata
        have hname : c.name ≠ some x :=
          name_ne hx hdata (by simp) (by simp +contextual [Data.children])
        refine .optional (fun _ => hpattern hname) (.bind (preserves_openScope hI) fun inner => ?_)
        exact .optional (fun _ => hpattern hname) (.forM fun node _ => ih _ node)
      iterate 3
        · exact .bind (preserves_openScope hI) fun inner => .forM fun node _ => ih _ node
      · refine .bind (preserves_openScope hI) fun inner => ?_
        split
        · next declaration name _ _ _ _ hdeclaration =>
          have hdeclaration : t.data? declaration = _ := hdeclaration
          refine .bind (hpattern ?_) fun _ => hpart _ _
          exact name_ne hx hdeclaration (by simp) (by simp +contextual [Data.children])
        · exact hpart _ _
      · refine .forM fun declaration _ => ?_
        split
        · next name definite type initializer hdeclaration =>
          refine .bind (J := fun _ => I) (fun _ hb => hb) fun b => .bind (hpattern ?_) fun _ =>
            hpart _ _
          exact name_ne hx hdeclaration (by simp) (by simp +contextual [Data.children])
        · exact .pure fun _ hb => hb
      · exact .forM fun node _ => ih _ node
    · exact .pure fun _ hb => hb

theorem preserves_declareAll (root : NodeId) : Preserves I (declareAll t root) :=
  .bind (preserves_openScope hI) fun scope => .bind
    (.forM fun id _ => preserves_declareUpTo hI hx hfunction _ scope id) fun _ =>
    .pure fun _ hb => hb

end

/-! ### Names that are introduced -/

namespace Table

/-- The name that introduces a symbol is mapped to a symbol. -/
structure MapsNames (t : Tree) (b : Table) : Prop where
  size_nodeSymbols : b.nodeSymbols.size = t.size
  symbolAt? : ∀ {id symbol}, b.symbol? id = some symbol →
    ∃ id', b.symbolAt? symbol.nameNode = some id'

/-- A node that is mapped stays mapped if another one is. -/
theorem join_setIfInBounds_isSome {γ : Type} {a : Array (Option γ)} {i j : Nat} {y : γ}
    (h : (j = i ∧ i < a.size) ∨ ∃ z, a[j]?.join = some z) :
    ∃ z, (a.setIfInBounds i (some y))[j]?.join = some z := by
  rw [Array.getElem?_setIfInBounds]
  by_cases hij : i = j
  · have hlt : i < a.size := by
      rcases h with ⟨-, hlt⟩ | ⟨z, hz⟩
      · exact hlt
      · refine Nat.lt_of_not_le fun hle => ?_
        rw [Array.getElem?_eq_none (hij ▸ hle)] at hz
        cases hz
    exact ⟨y, by rw [if_pos hij, if_pos hlt]; rfl⟩
  · rw [if_neg hij]
    exact h.resolve_left fun heq => hij heq.1.symm

theorem MapsNames.map {b : Table} (h : b.MapsNames t) (node : NodeId) (id : SymbolId) :
    MapsNames t { b with nodeSymbols := b.nodeSymbols.setIfInBounds node (some id) } :=
  ⟨(Array.size_setIfInBounds ..).trans h.size_nodeSymbols,
    fun hsymbol => join_setIfInBounds_isSome (.inr (h.symbolAt? hsymbol))⟩

theorem kept_mapsNames (t : Tree) : Kept t x (MapsNames t) where
  opened _ _ _ h := ⟨h.size_nodeSymbols, h.symbolAt?⟩
  shared _ _ h := ⟨h.size_nodeSymbols, h.symbolAt?⟩
  declared {node text} scope kind declaration hspells _ b h := by
    rcases run_declareName b scope kind text node declaration with ⟨id, -, hrun⟩ | ⟨-, hrun⟩
    · rw [hrun]
      exact h.map node id
    · rw [hrun]
      refine ⟨(Array.size_setIfInBounds ..).trans h.size_nodeSymbols, fun {id symbol} hsymbol => ?_⟩
      refine join_setIfInBounds_isSome ?_
      have hnode : node < b.nodeSymbols.size := by
        rw [h.size_nodeSymbols]
        rcases hspells with hdata | hdata <;> exact Tree.lt_size_of_data? hdata
      have hsome : (b.bound _).symbol? id = some symbol := hsymbol
      rw [symbol?_bound] at hsome
      split at hsome
      · obtain rfl := Option.some.inj hsome
        exact .inl ⟨rfl, hnode⟩
      · exact .inr (h.symbolAt? hsome)

theorem MapsNames.foldl_refer {b : Table} (h : b.MapsNames t) (us : List Use) :
    (us.foldl refer b).MapsNames t := by
  induction us generalizing b with
  | nil => exact h
  | cons u us ih =>
    refine ih ?_
    unfold refer
    split
    · exact h
    · exact ⟨(h.map u.node _).size_nodeSymbols, (h.map u.node _).symbolAt?⟩
    · exact ⟨h.size_nodeSymbols, h.symbolAt?⟩

theorem mapsNames_declared (ht : t.Closed) (root : NodeId) : (declared t root).MapsNames t := by
  refine preserves_declareAll (kept_mapsNames (x := t.size) t) (fun hdata hmem => ?_)
    (fun _ hparameter _ => ?_) root (.start t) ⟨Array.size_replicate, nofun⟩
  · exact absurd (ht.part_lt hdata _ (Data.mem_parts_of_mem_children hmem)) (Nat.lt_irrefl _)
  · obtain ⟨parameter, -, p, hdata, hname⟩ := hparameter
    exact absurd (ht.part_lt hdata t.size (Data.mem_parts_of_mem_children
      (by simp [Data.children, hname]))) (Nat.lt_irrefl _)

theorem mapsNames_ofTree (ht : t.Closed) (root : NodeId) : (ofTree t root).MapsNames t := by
  rw [ofTree_eq]
  exact (mapsNames_declared ht root).foldl_refer _

/-- A name that refers to a symbol introduces none. -/
theorem nameNode_ne_of_reference {text : List Char} (ht : t.Nested text) (hclosed : t.Closed)
    {root node : NodeId} {id other : SymbolId} {symbol : Symbol}
    (h : node ∈ (ofTree t root).referencesOf id)
    (hsymbol : (ofTree t root).symbol? other = some symbol) : symbol.nameNode ≠ node := by
  have hdeclares := declares_declared t root
  have hdata (u : Use) (hu : u ∈ uses t root) : t.data? u.node = some (.identifier u.name) :=
    data?_of_mem_usesUpTo hu
  have hordered : (uses t root).Pairwise fun u v => u.node ≠ v.node ∧ t.Before u.node v.node :=
    pairwise_usesUpTo ht
  have hnone : (declared t root).referencesOf id = [] := hdeclares.referencesOf id
  rw [ofTree_eq] at h hsymbol
  rw [referencesOf_foldl_refer hdeclares.valid hdata (hordered.imp And.left), hnone,
    List.nil_append] at h
  obtain ⟨u, hu, rfl⟩ := List.mem_map.mp h
  -- What refers to a symbol was mapped to none when all symbols were declared.
  have hmeaning : (declared t root).meaning u = .refers id := by
    simpa using (List.mem_filter.mp hu).2
  rw [symbol?, (sameScopes_foldl _ _).symbols] at hsymbol
  obtain ⟨id', hid'⟩ := (mapsNames_declared hclosed root).symbolAt? hsymbol
  intro heq
  rw [heq, (meaning_eq_refers_iff.mp hmeaning).1] at hid'
  cases hid'

end Table

/-! ### The parameter of a function -/

/-- The function `h` is an expression with one parameter `p`, which is a name `x` without a
default. -/
structure OneParameter (t : Tree) (h p x : NodeId) : Prop where
  function : ∃ k f, t.data? h = some (.function k f) ∧ (k = .arrow ∨ k = .expression) ∧
    f.parameters.nodes = [p]
  parameter : ∃ q, t.data? p = some (.parameter q) ∧ q.name = some x ∧ q.initializer = none
  isIdentifier : t.isIdentifier x = true

/-- The parameter `x` of the function `h`, and the name of the function. -/
def Names (t : Tree) (h x n : NodeId) : Prop :=
  n = x ∨ (t.data? h).bind Data.ownName? = some n

namespace OneParameter

variable {h p n : NodeId} (hh : OneParameter t h p x)
include hh

theorem name_mem : x ∈ t.children p := by
  obtain ⟨q, hp, hname, -⟩ := hh.parameter
  simp [Tree.children, hp, Data.children, hname]

theorem parameter_mem : p ∈ t.children h := by
  obtain ⟨k, f, hdata, -, hparameters⟩ := hh.function
  simp [Tree.children, hdata, Data.children, hparameters]

theorem ownName_mem (hname : (t.data? h).bind Data.ownName? = some n) : n ∈ t.children h := by
  obtain ⟨k, f, hdata, hk, -⟩ := hh.function
  rw [hdata] at hname
  rcases hk with rfl | rfl <;>
    simp [Tree.children, hdata, Data.children, show f.name = some n from hname]

/-- The parameter and the name of the function stand in the function. -/
theorem below_of_names (hn : Names t h x n) : t.Below h n := by
  rcases hn with rfl | hn
  · exact .of_child hh.parameter_mem (.child .refl hh.name_mem)
  · exact .child .refl (hh.ownName_mem hn)

/-- The parameter is not called by the node that is the name of the function. -/
theorem ownName_ne (ht : t.Branching) (hname : (t.data? h).bind Data.ownName? = some n) :
    n ≠ x := by
  rintro rfl
  obtain rfl := ht.parents_eq hh.name_mem (hh.ownName_mem hname)
  exact Nat.lt_irrefl _ (ht.older hh.parameter_mem)

end OneParameter

/-- The node `x` is mapped to a symbol that `P` introduces, if to any. -/
def Introduced (P : NodeId → Prop) (x : NodeId) (b : Table) : Prop :=
  ∀ id, b.symbolAt? x = some id → ∃ symbol, b.symbol? id = some symbol ∧ P symbol.nameNode

/-- In the scope only names are bound that `P` introduces. -/
def BoundBy (P : NodeId → Prop) (scope : ScopeId) (b : Table) : Prop :=
  ∀ s name id, b.scope? scope = some s → s.lookup name = some id →
    ∃ symbol, b.symbol? id = some symbol ∧ P symbol.nameNode

section

variable {P : NodeId → Prop} {scope : ScopeId} {kind : SymbolKind} {text : String}
  {node declaration : NodeId}

theorem kept_introduced : Kept t x (Introduced P x) where
  opened _ _ _ h := h
  shared _ _ h := h
  declared {node text} scope kind declaration _ hne b h := by
    intro id hid
    rcases run_declareName b scope kind text node declaration with ⟨id', -, hrun⟩ | ⟨-, hrun⟩
    · rw [hrun] at hid ⊢
      rcases Table.join_setIfInBounds hid with ⟨heq, -⟩ | hid
      · exact absurd heq.symm hne
      · exact h id hid
    · rw [hrun] at hid ⊢
      rcases Table.join_setIfInBounds hid with ⟨heq, -⟩ | hid
      · exact absurd heq.symm hne
      · obtain ⟨symbol, hsymbol, hP⟩ := h id hid
        exact ⟨symbol, Table.symbol?_bound_of_some hsymbol, hP⟩

/-- Declaring `x` maps it to a symbol that was bound in the scope, or to a new one. -/
theorem leads_declareName (hx : P x) : Leads (fun b => Introduced P x b ∧ BoundBy P scope b)
    (declareName scope kind text x declaration) fun _ => Introduced P x := by
  rintro b ⟨hintroduced, hbound⟩ id hid
  rcases run_declareName b scope kind text x declaration with ⟨id', hfound, hrun⟩ | ⟨-, hrun⟩
  · rw [hrun] at hid ⊢
    rcases Table.join_setIfInBounds hid with ⟨-, rfl⟩ | hid
    · obtain ⟨s, hs, hlookup⟩ := Option.bind_eq_some_iff.mp hfound
      exact hbound s text _ hs hlookup
    · exact hintroduced id hid
  · rw [hrun] at hid ⊢
    rcases Table.join_setIfInBounds hid with ⟨-, rfl⟩ | hid
    · exact ⟨_, (Table.symbol?_bound _).trans (if_pos rfl), hx⟩
    · obtain ⟨symbol, hsymbol, hP⟩ := hintroduced id hid
      exact ⟨symbol, Table.symbol?_bound_of_some hsymbol, hP⟩

/-- What `P` introduces may be bound in the scope. -/
theorem preserves_boundBy (hnode : P node) :
    Preserves (BoundBy P scope) (declareName scope kind text node declaration) := by
  intro b hb s name id hs hlookup
  rcases run_declareName b scope kind text node declaration with ⟨id', -, hrun⟩ | ⟨-, hrun⟩
  · rw [hrun] at hs ⊢
    exact hb s name id hs hlookup
  · rw [hrun] at hs ⊢
    have hold {s₀ : Scope} (hs₀ : b.scope? scope = some s₀) (hlookup : s₀.lookup name = some id) :
        ∃ symbol, (b.bound ⟨kind, text, node, declaration, scope⟩).symbol? id = some symbol ∧
          P symbol.nameNode := by
      obtain ⟨symbol, hsymbol, hP⟩ := hb s₀ name id hs₀ hlookup
      exact ⟨symbol, Table.symbol?_bound_of_some hsymbol, hP⟩
    obtain ⟨s₀, hs₀, rfl⟩ := Option.map_eq_some_iff.mp ((Table.scope?_bound scope).symm.trans hs)
    rw [if_pos rfl, Table.lookup_append, Option.or_eq_some_iff] at hlookup
    rcases hlookup with hlookup | ⟨-, hlookup⟩
    · exact hold hs₀ hlookup
    · split at hlookup
      · obtain rfl := Option.some.inj hlookup
        exact ⟨_, (Table.symbol?_bound _).trans (if_pos rfl), hnode⟩
      · cases hlookup

end

/-- A name declares itself. -/
theorem bindingParts_of_isIdentifier (declaration : NodeId) {name : NodeId}
    (h : t.isIdentifier name = true) : ∃ text, t.data? name = some (.identifier text) ∧
      bindingParts t declaration (some name) = [.name text name declaration] := by
  obtain ⟨d, hd, hidentifier⟩ := (Option.any_eq_true _ _).mp h
  cases d with
  | identifier text =>
    refine ⟨text, hd, ?_⟩
    simp only [bindingParts, bindingPartsUpTo, Option.bind_some, hd, Option.map_some]
  | _ => cases hidentifier

theorem isComputedName_eq_false {name : Option NodeId}
    (h : ∀ id, name = some id → t.isIdentifier id = true) : isComputedName t name = false := by
  unfold isComputedName
  split
  · next e hpart =>
    obtain ⟨id, hid, hdata⟩ := Option.bind_eq_some_iff.mp hpart
    have hidentifier := h id hid
    rw [Tree.isIdentifier, hdata] at hidentifier
    cases hidentifier
  · rfl

section

variable {h p : NodeId} (hh : OneParameter t h p x) (ht : t.Branching)
  (hnamed : ∀ {id d}, t.data? id = some d → t.IsNamed d)
include hh ht hnamed

/-- The name of the function may be bound in its scope before the parameter is. -/
theorem preserves_declarePattern_ownName {visit : NodeId → Binder Unit} {inner : ScopeId}
    {kind : SymbolKind} {name : Option NodeId}
    (hname : ∀ n, name = some n → (t.data? h).bind Data.ownName? = some n) :
    Preserves (fun b => Introduced (Names t h x) x b ∧ BoundBy (Names t h x) inner b)
      (declarePattern t visit inner kind h name) := by
  cases name with
  | none =>
    rw [declarePattern, bindingParts, bindingPartsUpTo]
    exact .pure fun _ hb => hb
  | some n =>
    have hn := hname n rfl
    obtain ⟨d, hdata, hown⟩ := Option.bind_eq_some_iff.mp hn
    obtain ⟨text, hspells, hparts⟩ :=
      bindingParts_of_isIdentifier h ((hnamed hdata).isIdentifier hown)
    rw [declarePattern, hparts]
    refine .bind (fun b hb => ⟨?_, ?_⟩) fun _ => .pure fun _ hb => hb
    · exact kept_introduced.declared _ _ _ (.inl hspells) (hh.ownName_ne ht hn) b hb.1
    · exact preserves_boundBy (.inr hn) b hb.2

omit ht hnamed in
/-- Declaring the parameter maps it to a symbol that it introduces, or that is bound already. -/
theorem leads_declarePattern_parameter {visit : NodeId → Binder Unit} {inner : ScopeId}
    {kind : SymbolKind} {name : Option NodeId} (hname : name = some x) :
    Leads (fun b => Introduced (Names t h x) x b ∧ BoundBy (Names t h x) inner b)
      (declarePattern t visit inner kind p name) fun _ => Introduced (Names t h x) x := by
  obtain ⟨text, -, hparts⟩ := bindingParts_of_isIdentifier p hh.isIdentifier
  rw [hname, declarePattern, hparts]
  exact .bind (leads_declareName (.inl rfl)) fun _ => .pure fun _ hb => hb

/-- The scope of a function is opened for it, so its parameter cannot have been declared by anything
but its name. -/
theorem preserves_declareUpTo_function {fuel : Nat}
    (ih : ∀ scope node, Preserves (Introduced (Names t h x) x) (declareUpTo t fuel scope node))
    (scope : ScopeId) :
    Preserves (Introduced (Names t h x) x) (declareUpTo t (fuel + 1) scope h) := by
  obtain ⟨k, f, hdata, hk, hparameters⟩ := hh.function
  obtain ⟨q, hp, hname, hinitializer⟩ := hh.parameter
  obtain ⟨n, hn, hfunction⟩ := Option.map_eq_some_iff.mp hdata
  have hown (name : NodeId) (hf : f.name = some name) :
      (t.data? h).bind Data.ownName? = some name := by
    rw [hdata]
    rcases hk with rfl | rfl <;> exact hf
  have hpart (scope : ScopeId) (part : Option NodeId) :
      Preserves (Introduced (Names t h x) x) (part.toList.forM (declareUpTo t fuel scope)) :=
    .forM fun node _ => ih scope node
  rw [declareUpTo, hn]
  dsimp only
  rw [hfunction]
  dsimp only
  refine .optional (fun hkind => by rcases hk with rfl | rfl <;> cases hkind) (.bind
    (J := fun inner b => Introduced (Names t h x) x b ∧ BoundBy (Names t h x) inner b)
    (fun b hb => ⟨hb, ?_⟩) fun inner => ?_)
  -- The new scope is empty, so nothing in it is bound to another name.
  · intro s name id hs hlookup
    obtain rfl := Option.some.inj (((Table.scope?_opened _).trans (if_pos rfl)).symm.trans hs)
    cases hlookup
  refine .optional (fun _ => preserves_declarePattern_ownName hh ht hnamed hown)
    (.optional (fun hcomputed => ?_) ?_)
  · rw [isComputedName_eq_false fun name hf => by
      obtain ⟨d, hd, hdown⟩ := Option.bind_eq_some_iff.mp (hown name hf)
      exact (hnamed hd).isIdentifier hdown] at hcomputed
    cases hcomputed
  rw [hparameters]
  refine .bind (J := fun _ => Introduced (Names t h x) x)
    (.bind (J := fun _ => Introduced (Names t h x) x) ?_ fun _ => .pure fun _ hb => hb) fun _ => ?_
  · dsimp only
    rw [hp]
    dsimp only
    rw [hinitializer]
    exact .ite (fun _ => .bind (leads_declarePattern_parameter hh hname) fun _ =>
      .pure fun _ hb => hb) fun _ => .pure fun _ hb => hb.1
  · split
    · exact .bind (.forM fun _ _ => preserves_shareScope (kept_introduced (t := t))) fun _ =>
        .forM fun node _ => ih _ node
    · exact hpart _ _

/-- The parameter is introduced by its own name or by that of the function. -/
theorem introduced_declared (root : NodeId) :
    Introduced (Names t h x) x (Table.declared t root) := by
  obtain ⟨q, hp, -⟩ := hh.parameter
  refine preserves_declareAll kept_introduced (fun {id d} hd hmem => ?_)
    (fun {fuel k' f' h'} hd hparameter ih => ?_) root (.start t) fun id hid => ?_
  · have hmem : x ∈ t.children id := by simpa [Tree.children, hd] using hmem
    obtain rfl := ht.parents_eq hh.name_mem hmem
    exact ⟨q, Option.some.inj (hd.symm.trans hp)⟩
  · obtain ⟨parameter, hparameter, q', hq, hq'⟩ := hparameter
    have hmem : x ∈ t.children parameter := by simp [Tree.children, hq, Data.children, hq']
    obtain rfl := ht.parents_eq hh.name_mem hmem
    have hmem : p ∈ t.children h' := by simp [Tree.children, hd, Data.children, hparameter]
    obtain rfl := ht.parents_eq hh.parameter_mem hmem
    exact preserves_declareUpTo_function hh ht hnamed ih
  · have hnone : (Table.start t).symbolAt? x = none := Table.join_replicate_none t.size x
    cases hnone.symm.trans hid

/-- A name that introduces a parameter is met by no walk that resolves references. -/
theorem introduced_ofTree {root : NodeId}
    (hnames : ∀ u ∈ uses t root, ∃ parent d, t.parent? u.node = some parent ∧
      t.data? parent = some d ∧ u.node ∈ outerKey t d ++ referringParts t d) :
    Introduced (Names t h x) x (Table.ofTree t root) := by
  obtain ⟨q, hp, hname, hinitializer⟩ := hh.parameter
  have hne : ∀ u ∈ uses t root, u.node ≠ x := by
    rintro u hu rfl
    obtain ⟨parent, d, hparent, hd, hmem⟩ := hnames u hu
    obtain rfl := Option.some.inj (hparent.symm.trans (ht.parent hh.name_mem))
    obtain rfl := Option.some.inj (hd.symm.trans hp)
    have hidentifier : (t.partData? q.name).any Data.isIdentifier = true := by
      rw [hname]; exact hh.isIdentifier
    simp [outerKey, referringParts, hidentifier, hinitializer] at hmem
  intro id hid
  rw [Table.ofTree_eq, Table.symbolAt?_foldl_refer_of_notMem hne] at hid
  obtain ⟨symbol, hsymbol, hnode⟩ := introduced_declared hh ht hnamed root id hid
  refine ⟨symbol, ?_, hnode⟩
  rw [Table.ofTree_eq, Table.symbol?, (Table.sameScopes_foldl _ _).symbols]
  exact hsymbol

end

end Unchain.Binding

namespace Unchain.SourceFile

open Binding (Introduced Names OneParameter)
open Syntax (NodeId)

/-- Whatever the text is, a name that introduces a symbol is mapped to one. -/
theorem ofSource_mapsNames (fileName source : String) :
    let read := ofSource fileName source
    read.bindings.MapsNames read.tree :=
  Binding.Table.mapsNames_ofTree (SourceTree.ofSource_branching fileName source).1.closed _

/-- In a text without errors, the parameter of a function that is an expression and has just one is
introduced by its own name or by that of the function. -/
theorem ofSource_introduced (fileName source : String) (h : (ofSource fileName source).errors = [])
    {function parameter name : NodeId} :
    let read := ofSource fileName source
    OneParameter read.tree function parameter name →
      Introduced (Names read.tree function name) name read.bindings :=
  fun hparameter => Binding.introduced_ofTree hparameter
    (SourceTree.ofSource_branching fileName source).2.1
    (SourceTree.ofSource_isNamed fileName source)
    (ofSource_classifies fileName source h).2.referring

end Unchain.SourceFile
