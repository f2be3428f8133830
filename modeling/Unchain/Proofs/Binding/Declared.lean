import Unchain.Binding.Declare

/-!
# What declaring leaves

A table is valid if its numbers refer to what is there: scopes have older
parents, a name that is bound in a scope leads to a symbol of that name and
scope and back, and a node is only mapped to a symbol that is spelled like it.
Declaring keeps a table valid and refers to nothing (`keeps_declareUpTo`), so
the table of a tree is valid when the references come to be resolved
(`Table.declares_declared`).
-/

namespace Unchain.Binding

open Syntax (Data NodeId Tree)

variable {t : Tree} {α β : Type}

/-- A node that is a name with a text. -/
def Spells (t : Tree) (node : NodeId) (text : String) : Prop :=
  t.data? node = some (.identifier text) ∨ t.data? node = some (.privateIdentifier text)

namespace Table

/-- The numbers in the table refer to what is there. -/
structure Valid (t : Tree) (b : Table) : Prop where
  size_nodeSymbols : b.nodeSymbols.size = t.size
  size_references : b.references.size = b.symbols.size
  /-- A scope is younger than the one around it. -/
  parent_lt : ∀ {scope s parent}, b.scope? scope = some s → s.parent = some parent → parent < scope
  /-- A name that is bound in a scope leads to a symbol there. -/
  symbol_of_lookup : ∀ {scope s name id}, b.scope? scope = some s → s.lookup name = some id →
    ∃ symbol, b.symbol? id = some symbol ∧ symbol.name = name ∧ symbol.scope = scope
  /-- A symbol is bound in its scope. -/
  lookup_of_symbol : ∀ {id symbol}, b.symbol? id = some symbol →
    ∃ s, b.scope? symbol.scope = some s ∧ s.lookup symbol.name = some id
  /-- A node that is mapped to a symbol is spelled like it. -/
  symbol_of_node : ∀ {node id}, b.symbolAt? node = some id →
    ∃ symbol, b.symbol? id = some symbol ∧ Spells t node symbol.name
  scope_of_node : ∀ {node scope}, b.scopeAt? node = some scope → scope < b.scopes.size

/-- What declaring may change: `b'` is valid, its scopes are those of `b` and more, and nothing
became a reference. -/
structure Declares (t : Tree) (b b' : Table) : Prop where
  valid : b'.Valid t
  scopes_le : b.scopes.size ≤ b'.scopes.size
  referencesOf : ∀ id, b'.referencesOf id = b.referencesOf id
  unresolved : b'.unresolved = b.unresolved

theorem Valid.declares {b : Table} (h : b.Valid t) : b.Declares t b :=
  ⟨h, Nat.le_refl _, fun _ => rfl, rfl⟩

theorem Declares.trans {a b c : Table} (h : a.Declares t b) (h' : b.Declares t c) :
    a.Declares t c :=
  ⟨h'.valid, Nat.le_trans h.scopes_le h'.scopes_le,
    fun id => (h'.referencesOf id).trans (h.referencesOf id), h'.unresolved.trans h.unresolved⟩

theorem lt_of_scope? {b : Table} {scope : ScopeId} {s : Scope} (h : b.scope? scope = some s) :
    scope < b.scopes.size :=
  (Array.getElem?_eq_some_iff.mp h).1

theorem scope?_eq_some_of_lt {b : Table} {scope : ScopeId} (h : scope < b.scopes.size) :
    ∃ s, b.scope? scope = some s :=
  ⟨_, Array.getElem?_eq_getElem h⟩

theorem lt_of_symbol? {b : Table} {id : SymbolId} {s : Symbol} (h : b.symbol? id = some s) :
    id < b.symbols.size :=
  (Array.getElem?_eq_some_iff.mp h).1

/-- The scope that `var` variables go to is there. -/
theorem Valid.functionScopeOf_lt {b : Table} (h : b.Valid t) {scope : ScopeId}
    (hscope : scope < b.scopes.size) : b.functionScopeOf scope < b.scopes.size := by
  unfold functionScopeOf
  generalize b.scopes.size + 1 = fuel
  induction fuel generalizing scope with
  | zero => exact hscope
  | succ fuel ih =>
    obtain ⟨s, hs⟩ := scope?_eq_some_of_lt hscope
    rw [functionScopeOf.go, hs]
    split
    · next s' hs' =>
      obtain rfl := Option.some.inj hs'
      split
      · exact hscope
      · cases hparent : s.parent with
        | none => exact hscope
        | some parent => exact ih (Nat.lt_trans (h.parent_lt hs hparent) hscope)
    · exact hscope

/-! ### Changes of a table -/

theorem join_replicate_none {γ : Type} (n i : Nat) :
    (Array.replicate n (none : Option γ))[i]?.join = none := by
  rw [Array.getElem?_replicate]
  split <;> rfl

/-- A table of which a node was mapped to something. -/
theorem join_setIfInBounds {γ : Type} {a : Array (Option γ)} {i j : Nat} {x y : γ}
    (h : (a.setIfInBounds i (some x))[j]?.join = some y) :
    (j = i ∧ y = x) ∨ a[j]?.join = some y := by
  rw [Array.getElem?_setIfInBounds] at h
  split at h
  · next hij =>
    split at h
    · exact .inl ⟨hij.symm, (Option.some.inj h).symm⟩
    · cases h
  · exact .inr h

/-- A table in which a node has opened a scope. -/
def opened (b : Table) (kind : ScopeKind) (node : NodeId) (parent : Option ScopeId) : Table :=
  { b with
    scopes := b.scopes.push { parent, kind, container := node }
    nodeScopes := b.nodeScopes.setIfInBounds node (some b.scopes.size) }

section Opened

variable {b : Table} {kind : ScopeKind} {node : NodeId} {parent : Option ScopeId}

@[simp] theorem size_scopes_opened : (b.opened kind node parent).scopes.size = b.scopes.size + 1 :=
  Array.size_push _

theorem scope?_opened (scope : ScopeId) : (b.opened kind node parent).scope? scope =
    if scope = b.scopes.size then some { parent, kind, container := node } else b.scope? scope :=
  Array.getElem?_push

theorem Valid.opened (h : b.Valid t) (hparent : ∀ p, parent = some p → p < b.scopes.size) :
    b.Declares t (b.opened kind node parent) := by
  refine ⟨⟨h.size_nodeSymbols, h.size_references, fun {scope s p} hs hp => ?_,
    fun {scope s name id} hs hlookup => ?_, fun hsymbol => ?_, h.symbol_of_node,
    fun hnode => ?_⟩, by simp, fun _ => rfl, rfl⟩
  · rw [scope?_opened] at hs
    split at hs
    · next hscope =>
      obtain rfl := Option.some.inj hs
      exact hscope ▸ hparent p hp
    · exact h.parent_lt hs hp
  · rw [scope?_opened] at hs
    split at hs
    · obtain rfl := Option.some.inj hs
      cases hlookup
    · exact h.symbol_of_lookup hs hlookup
  · obtain ⟨s, hs, hlookup⟩ := h.lookup_of_symbol hsymbol
    refine ⟨s, ?_, hlookup⟩
    rw [scope?_opened, if_neg (Nat.ne_of_lt (lt_of_scope? hs)), hs]
  · rw [size_scopes_opened]
    rcases join_setIfInBounds hnode with ⟨-, rfl⟩ | hnode
    · exact Nat.lt_succ_self _
    · exact Nat.lt_succ_of_lt (h.scope_of_node hnode)

end Opened

/-- A table in which a node is mapped to a symbol that there is. -/
theorem Valid.mapped {b : Table} (h : b.Valid t) {node : NodeId} {id : SymbolId} {symbol : Symbol}
    (hsymbol : b.symbol? id = some symbol) (hspells : Spells t node symbol.name) :
    b.Declares t { b with nodeSymbols := b.nodeSymbols.setIfInBounds node (some id) } := by
  refine ⟨⟨?_, h.size_references, h.parent_lt, h.symbol_of_lookup, h.lookup_of_symbol,
    fun hnode => ?_, h.scope_of_node⟩, Nat.le_refl _, fun _ => rfl, rfl⟩
  · exact (Array.size_setIfInBounds ..).trans h.size_nodeSymbols
  · rcases join_setIfInBounds hnode with ⟨rfl, rfl⟩ | hnode
    · exact ⟨symbol, hsymbol, hspells⟩
    · exact h.symbol_of_node hnode

/-- A table with one more symbol, which is bound in its scope. -/
def bound (b : Table) (symbol : Symbol) : Table :=
  { b with
    symbols := b.symbols.push symbol
    references := b.references.push []
    scopes := b.scopes.modify symbol.scope fun s =>
      { s with names := s.names ++ [(symbol.name, b.symbols.size)] } }

section Bound

variable {b : Table} {symbol : Symbol}

theorem symbol?_bound (id : SymbolId) : (b.bound symbol).symbol? id =
    if id = b.symbols.size then some symbol else b.symbol? id :=
  Array.getElem?_push

theorem scope?_bound (scope : ScopeId) : (b.bound symbol).scope? scope =
    (b.scope? scope).map fun s => if symbol.scope = scope then
      { s with names := s.names ++ [(symbol.name, b.symbols.size)] } else s := by
  rw [scope?, bound, Array.getElem?_modify]
  split
  · rfl
  · exact Option.map_id'.symm

@[simp] theorem lookup_append (s : Scope) (name name' : String) (id : SymbolId) :
    Scope.lookup { s with names := s.names ++ [(name', id)] } name =
      (s.lookup name).or (if name = name' then some id else none) := by
  rw [Scope.lookup, List.lookup_append, List.lookup_cons]
  by_cases h : name = name'
  · simp [h, Scope.lookup]
  · simp [h, beq_eq_false_iff_ne.mpr h, Scope.lookup]

/-- The symbols that there were keep their numbers. -/
theorem symbol?_bound_of_some {id : SymbolId} {old : Symbol} (h : b.symbol? id = some old) :
    (b.bound symbol).symbol? id = some old := by
  rw [symbol?_bound, if_neg (Nat.ne_of_lt (lt_of_symbol? h)), h]

theorem Valid.symbol_of_lookup_bound (h : b.Valid t) {scope : ScopeId} {s : Scope} {name : String}
    {id : SymbolId} (hs : (b.bound symbol).scope? scope = some s)
    (hlookup : s.lookup name = some id) :
    ∃ found, (b.bound symbol).symbol? id = some found ∧ found.name = name ∧
      found.scope = scope := by
  have hold {s₀ : Scope} (hs₀ : b.scope? scope = some s₀) (hlookup : s₀.lookup name = some id) :
      ∃ found, (b.bound symbol).symbol? id = some found ∧ found.name = name ∧
        found.scope = scope := by
    obtain ⟨old, hold, hname⟩ := h.symbol_of_lookup hs₀ hlookup
    exact ⟨old, symbol?_bound_of_some hold, hname⟩
  rw [scope?_bound] at hs
  obtain ⟨s₀, hs₀, rfl⟩ := Option.map_eq_some_iff.mp hs
  split at hlookup
  · next hscope =>
    rw [lookup_append, Option.or_eq_some_iff] at hlookup
    rcases hlookup with hlookup | ⟨-, hlookup⟩
    · exact hold hs₀ hlookup
    · split at hlookup
      · next hname =>
        obtain rfl := Option.some.inj hlookup
        exact ⟨symbol, by rw [symbol?_bound, if_pos rfl], hname.symm, hscope⟩
      · cases hlookup
  · exact hold hs₀ hlookup

theorem Valid.lookup_of_symbol_bound (h : b.Valid t) {s : Scope}
    (hs : b.scope? symbol.scope = some s) (hnew : s.lookup symbol.name = none) {id : SymbolId}
    {found : Symbol} (hfound : (b.bound symbol).symbol? id = some found) :
    ∃ s', (b.bound symbol).scope? found.scope = some s' ∧ s'.lookup found.name = some id := by
  rw [symbol?_bound] at hfound
  split at hfound
  · next hid =>
    obtain rfl := Option.some.inj hfound
    refine ⟨_, by rw [scope?_bound, hs, Option.map_some, if_pos rfl], ?_⟩
    rw [lookup_append, hnew, if_pos rfl, hid]
    rfl
  · obtain ⟨s₀, hs₀, hlookup⟩ := h.lookup_of_symbol hfound
    refine ⟨_, by rw [scope?_bound, hs₀, Option.map_some], ?_⟩
    split
    · rw [lookup_append, hlookup]
      rfl
    · exact hlookup

theorem referencesOf_bound (id : SymbolId) :
    (b.bound symbol).referencesOf id = b.referencesOf id := by
  show ((b.references.push [])[id]?).getD [] = (b.references[id]?).getD []
  rw [Array.getElem?_push]
  split
  · next hid => rw [hid, Array.getElem?_eq_none (Nat.le_refl _)]; rfl
  · rfl

/-- A name that is new in its scope may be bound there. -/
theorem Valid.bound (h : b.Valid t) {s : Scope} (hs : b.scope? symbol.scope = some s)
    (hnew : s.lookup symbol.name = none) : b.Declares t (b.bound symbol) := by
  have hsize : (b.bound symbol).scopes.size = b.scopes.size := Array.size_modify ..
  refine ⟨⟨h.size_nodeSymbols, ?_, fun {scope s' p} hs' hp => ?_, h.symbol_of_lookup_bound,
    h.lookup_of_symbol_bound hs hnew, fun hnode => ?_, fun hnode => ?_⟩, Nat.le_of_eq hsize.symm,
    referencesOf_bound, rfl⟩
  · simp [Table.bound, h.size_references]
  · rw [scope?_bound] at hs'
    obtain ⟨s₀, hs₀, rfl⟩ := Option.map_eq_some_iff.mp hs'
    refine h.parent_lt hs₀ ?_
    split at hp <;> exact hp
  · obtain ⟨old, hold, hspells⟩ := h.symbol_of_node hnode
    exact ⟨old, symbol?_bound_of_some hold, hspells⟩
  · exact hsize ▸ h.scope_of_node hnode

end Bound

end Table

/-! ### Steps that declare -/

/-- A name that is declared is mapped to the symbol that it has in the scope, or to a new one. -/
theorem run_declareName (b : Table) (scope : ScopeId) (kind : SymbolKind) (name : String)
    (node declaration : NodeId) :
    (∃ id, (b.scope? scope).bind (·.lookup name) = some id ∧
      ((declareName scope kind name node declaration).run b).2 =
        { b with nodeSymbols := b.nodeSymbols.setIfInBounds node (some id) }) ∨
    (b.scope? scope).bind (·.lookup name) = none ∧
      ((declareName scope kind name node declaration).run b).2 =
        { b.bound ⟨kind, name, node, declaration, scope⟩ with
          nodeSymbols := b.nodeSymbols.setIfInBounds node (some b.symbols.size) } := by
  cases hfound : (b.scope? scope).bind (·.lookup name) with
  | some id =>
    refine .inl ⟨id, rfl, ?_⟩
    simp only [declareName, StateT.run_modify, hfound]
    rfl
  | none =>
    refine .inr ⟨rfl, ?_⟩
    simp only [declareName, StateT.run_modify, hfound]
    rfl

/-- Where the first `n` scopes are there, the step only declares. -/
def Keeps (t : Tree) (n : Nat) (x : Binder α) : Prop :=
  ∀ b : Table, b.Valid t → n ≤ b.scopes.size → b.Declares t (x.run b).2

namespace Keeps

variable {n : Nat} {x : Binder α} {f : α → Binder β}

theorem pure {a : α} : Keeps t n (pure a) := fun _ hb _ => hb.declares

theorem bind (hx : Keeps t n x) (hf : ∀ a, Keeps t n (f a)) : Keeps t n (x >>= f) := by
  intro b hb hn
  have h := hx b hb hn
  exact h.trans (hf (x.run b).1 (x.run b).2 h.valid (Nat.le_trans hn h.scopes_le))

theorem forM {γ : Type} {step : γ → Binder Unit} {list : List γ}
    (h : ∀ a ∈ list, Keeps t n (step a)) : Keeps t n (list.forM step) := by
  induction list with
  | nil => exact pure
  | cons a rest ih =>
    exact (h a List.mem_cons_self).bind fun _ => ih fun b hb => h b (List.mem_cons_of_mem a hb)

theorem ite {c : Prop} [Decidable c] {y : Binder α} (hx : Keeps t n x) (hy : Keeps t n y) :
    Keeps t n (if c then x else y) := by
  split
  · exact hx
  · exact hy

/-- A step that is taken or left out before another. -/
theorem optional {c : Prop} [Decidable c] {x : Binder Unit} {f : Unit → Binder β}
    (hx : Keeps t n x) (hf : Keeps t n (f ())) :
    Keeps t n (if c then x >>= f else f ()) :=
  .ite (hx.bind fun _ => hf) hf

/-- What is read of the table is valid, and all its scopes are there. -/
theorem get {f : Table → Binder β} (h : ∀ b : Table, b.Valid t → n ≤ b.scopes.size →
    Keeps t b.scopes.size (f b)) : Keeps t n (MonadState.get >>= f) :=
  fun b hb hn => h b hb hn b hb (Nat.le_refl _)

/-- The scope that is opened is there for what comes after it. -/
theorem openScope {kind : ScopeKind} {node : NodeId} {parent : Option ScopeId}
    {f : ScopeId → Binder β} (hparent : ∀ p, parent = some p → p < n)
    (hf : ∀ id, n ≤ id → Keeps t (id + 1) (f id)) :
    Keeps t n (Binding.openScope kind node parent >>= f) := by
  intro b hb hn
  have hopened : b.Declares t (b.opened kind node parent) := hb.opened fun p hp =>
    Nat.lt_of_lt_of_le (hparent p hp) hn
  refine hopened.trans (hf b.scopes.size hn _ hopened.valid ?_)
  exact Nat.le_of_eq (Table.size_scopes_opened ..).symm

theorem shareScope {node : NodeId} {scope : ScopeId} (hscope : scope < n) :
    Keeps t n (Binding.shareScope node scope) := by
  intro b hb hn
  refine ⟨⟨hb.size_nodeSymbols, hb.size_references, hb.parent_lt, hb.symbol_of_lookup,
    hb.lookup_of_symbol, hb.symbol_of_node, fun {node' scope'} h => ?_⟩, Nat.le_refl _,
    fun _ => rfl, rfl⟩
  rcases Table.join_setIfInBounds h with ⟨-, rfl⟩ | h
  · exact Nat.lt_of_lt_of_le hscope hn
  · exact hb.scope_of_node h

theorem declareName {scope : ScopeId} {kind : SymbolKind} {name : String}
    {node declaration : NodeId} (hscope : scope < n) (hspells : Spells t node name) :
    Keeps t n (Binding.declareName scope kind name node declaration) := by
  intro b hb hn
  obtain ⟨s, hs⟩ := Table.scope?_eq_some_of_lt (Nat.lt_of_lt_of_le hscope hn)
  rcases run_declareName b scope kind name node declaration with ⟨id, hfound, hrun⟩ | ⟨hfound, hrun⟩
  · rw [hs, Option.bind_some] at hfound
    obtain ⟨symbol, hsymbol, rfl, -⟩ := hb.symbol_of_lookup hs hfound
    rw [hrun]
    exact hb.mapped hsymbol hspells
  · rw [hs, Option.bind_some] at hfound
    have hbound : b.Declares t (b.bound ⟨kind, name, node, declaration, scope⟩) :=
      hb.bound hs hfound
    rw [hrun]
    exact hbound.trans (hbound.valid.mapped (by rw [Table.symbol?_bound, if_pos rfl]) hspells)

end Keeps

/-! ### Declaring a tree -/

variable {n : Nat}

/-- The names of a pattern are spelled as they are declared. -/
theorem spells_of_mem_bindingPartsUpTo {fuel : Nat} {declaration : NodeId} {name : Option NodeId}
    {text : String} {node declaration' : NodeId}
    (h : .name text node declaration' ∈ bindingPartsUpTo t fuel declaration name) :
    Spells t node text := by
  induction fuel generalizing declaration name with
  | zero => cases h
  | succ fuel ih =>
    have hnode {id : NodeId} {d : Data}
        (hpart : (name.bind fun id => (t.data? id).map (id, ·)) = some (id, d)) :
        t.data? id = some d := by
      obtain ⟨id', -, hmap⟩ := Option.bind_eq_some_iff.mp hpart
      obtain ⟨d', hd', heq⟩ := Option.map_eq_some_iff.mp hmap
      obtain ⟨rfl, rfl⟩ := Prod.mk.inj heq
      exact hd'
    rw [bindingPartsUpTo] at h
    split at h
    · next hpart =>
      obtain ⟨rfl, rfl, rfl⟩ := BindingPart.name.inj (List.mem_singleton.mp h)
      exact .inl (hnode hpart)
    · next hpart =>
      obtain ⟨rfl, rfl, rfl⟩ := BindingPart.name.inj (List.mem_singleton.mp h)
      exact .inr (hnode hpart)
    · obtain ⟨element, -, hmem⟩ := List.mem_flatMap.mp h
      split at hmem
      · -- Among the parts of an element only those of its name are names.
        rcases List.mem_append.mp hmem with hmem | hmem
        · rcases List.mem_append.mp hmem with hmem | hmem
          · split at hmem
            · obtain ⟨_, -, heq⟩ := List.mem_map.mp hmem
              cases heq
            · cases hmem
          · exact ih hmem
        · obtain ⟨_, -, heq⟩ := List.mem_map.mp hmem
          cases heq
      · cases hmem
    · cases h

theorem keeps_declarePattern {visit : NodeId → Binder Unit} {target : ScopeId} {kind : SymbolKind}
    {declaration : NodeId} {name : Option NodeId} (hvisit : ∀ node, Keeps t n (visit node))
    (htarget : target < n) : Keeps t n (declarePattern t visit target kind declaration name) := by
  refine .forM fun part hpart => ?_
  cases part with
  | name text node declaration' =>
    exact .declareName htarget (spells_of_mem_bindingPartsUpTo hpart)
  | expression node => exact hvisit node

theorem keeps_declareUpTo {fuel : Nat} {scope : ScopeId} (hscope : scope < n) (id : NodeId) :
    Keeps t n (declareUpTo t fuel scope id) := by
  induction fuel generalizing n scope id with
  | zero => exact .pure
  | succ fuel ih =>
    have hpart {n : Nat} {scope : ScopeId} (hscope : scope < n) (part : Option NodeId) :
        Keeps t n (part.toList.forM (declareUpTo t fuel scope)) :=
      .forM fun id _ => ih hscope id
    have hpattern {n : Nat} {scope : ScopeId} {kind : SymbolKind} (hscope : scope < n)
        (declaration : NodeId) (name : Option NodeId) :
        Keeps t n (declarePattern t (declareUpTo t fuel scope) scope kind declaration name) :=
      keeps_declarePattern (ih hscope) hscope
    have hparent (p : ScopeId) (hp : some scope = some p) : p < n := Option.some.inj hp ▸ hscope
    rw [declareUpTo]
    split
    · next node hnode =>
      split
      · next f hdata =>
        refine .optional (hpattern hscope _ _) (.openScope hparent fun inner hinner => ?_)
        have hout : scope < inner + 1 := Nat.lt_succ_of_lt (Nat.lt_of_lt_of_le hscope hinner)
        have hin : inner < inner + 1 := Nat.lt_succ_self inner
        refine .optional (hpattern hin _ _) (.optional (hpart hout _)
          (.bind (.forM ?_) fun _ => ?_))
        · intro parameter _
          split
          · exact .optional (hpattern hin _ _) (hpart hin _)
          · exact .pure
        · split
          · exact .bind (.forM fun _ _ => .shareScope hin) fun _ => .forM fun id _ => ih hin id
          · exact hpart hin _
      · refine .optional (hpattern hscope _ _) (.openScope hparent fun inner hinner => ?_)
        have hin : inner < inner + 1 := Nat.lt_succ_self inner
        exact .optional (hpattern hin _ _) (.forM fun id _ => ih hin id)
      iterate 3
        · exact .openScope hparent fun inner _ => .forM fun id _ => ih (Nat.lt_succ_self inner) id
      · refine .openScope hparent fun inner hinner => ?_
        have hin : inner < inner + 1 := Nat.lt_succ_self inner
        split
        · exact .bind (hpattern hin _ _) fun _ => hpart hin _
        · exact hpart hin _
      · refine .forM fun declaration _ => ?_
        split
        · refine .get fun b hb hle => .bind ?_ fun _ => hpart (Nat.lt_of_lt_of_le hscope hle) _
          have hin := Nat.lt_of_lt_of_le hscope hle
          refine keeps_declarePattern (ih hin) ?_
          split
          · exact hb.functionScopeOf_lt hin
          · exact hin
        · exact .pure
      · exact .forM fun id _ => ih hscope id
    · exact .pure

/-- A table before anything is declared. -/
def Table.start (t : Tree) : Table :=
  { nodeSymbols := Array.replicate t.size none, nodeScopes := Array.replicate t.size none }

/-- The table of a tree in which everything is declared. -/
def Table.declared (t : Tree) (root : NodeId) : Table := ((declareAll t root).run (.start t)).2

theorem Table.valid_start (t : Tree) : (Table.start t).Valid t where
  size_nodeSymbols := Array.size_replicate
  size_references := rfl
  parent_lt h := nomatch h
  symbol_of_lookup h := nomatch h
  lookup_of_symbol h := nomatch h
  symbol_of_node h := nomatch (join_replicate_none ..).symm.trans h
  scope_of_node h := nomatch (join_replicate_none ..).symm.trans h

theorem Table.declares_declared (t : Tree) (root : NodeId) :
    (Table.start t).Declares t (.declared t root) := by
  have hkeeps : Keeps t 0 (declareAll t root) := by
    refine .openScope nofun fun scope _ => .bind (.forM fun id _ => ?_) fun _ => .pure
    exact keeps_declareUpTo (Nat.lt_succ_self scope) id
  exact hkeeps _ (valid_start t) (Nat.zero_le _)

end Unchain.Binding
