import Mathlib.Data.List.Nodup
import Unchain.Proofs.Binding.Declared
import Unchain.Proofs.Binding.Uses
import Unchain.Proofs.Placing.SourceFile

/-!
# Every name is declared, resolved or unresolved

What a name means is settled before references are resolved: it declares a
symbol, refers to the innermost symbol of its text, or to nothing
(`Table.meaning`). Resolving records that for one name after another
(`run_resolveUpTo`, `Table.ofTree_eq`). So in the table of a text without errors
every name that is met is in one of three classes, and the references to a
symbol are the names that mean it, in the order of the text
(`SourceFile.ofSource_classifies`).
-/

namespace Unchain.Binding

open Syntax (Data NodeId Tree)

variable {t : Tree} {b : Table} {scope : ScopeId} {id : NodeId} {fuel : Nat}

/-- What a name does. -/
inductive Meaning where
  | declares
  | refers (id : SymbolId)
  | nothing
  deriving DecidableEq, Repr

namespace Table

/-- What a name does, by the declarations of a table. -/
def meaning (b : Table) (u : Use) : Meaning :=
  match b.symbolAt? u.node with
  | some _ => .declares
  | none =>
    match b.resolve? u.name u.scope with
    | some id => .refers id
    | none => .nothing

/-- A table in which one more name is resolved. -/
def refer (b : Table) (u : Use) : Table :=
  match b.meaning u with
  | .declares => b
  | .refers id =>
    { b with
      nodeSymbols := b.nodeSymbols.setIfInBounds u.node (some id)
      references := b.references.modify id (· ++ [u.node]) }
  | .nothing => { b with unresolved := b.unresolved ++ [(u.node, u.name)] }

/-! ### Innermost symbols -/

/-- The symbol of a name that is bound in the first scope on the way out from a scope. -/
inductive Innermost (b : Table) (name : String) : ScopeId → SymbolId → Prop where
  | here {scope : ScopeId} {s : Scope} {id : SymbolId} (hs : b.scope? scope = some s)
      (hlookup : s.lookup name = some id) : Innermost b name scope id
  | outer {scope parent : ScopeId} {s : Scope} {id : SymbolId} (hs : b.scope? scope = some s)
      (hlookup : s.lookup name = none) (hparent : s.parent = some parent)
      (h : Innermost b name parent id) : Innermost b name scope id

theorem innermost_iff {name : String} {s : Scope} {id : SymbolId} (hs : b.scope? scope = some s) :
    b.Innermost name scope id ↔ s.lookup name = some id ∨
      s.lookup name = none ∧ ∃ parent, s.parent = some parent ∧ b.Innermost name parent id := by
  constructor
  · intro h
    cases h with
    | here hs' hlookup =>
      obtain rfl := Option.some.inj (hs.symm.trans hs')
      exact .inl hlookup
    | outer hs' hlookup hparent h =>
      obtain rfl := Option.some.inj (hs.symm.trans hs')
      exact .inr ⟨hlookup, _, hparent, h⟩
  · rintro (hlookup | ⟨hlookup, parent, hparent, h⟩)
    · exact .here hs hlookup
    · exact .outer hs hlookup hparent h

theorem not_innermost {name : String} {id : SymbolId} (hs : b.scope? scope = none) :
    ¬ b.Innermost name scope id := by
  intro h
  cases h with
  | here hs' _ => cases hs.symm.trans hs'
  | outer hs' _ _ _ => cases hs.symm.trans hs'

/-- The search goes outwards from scope to scope, so it stops. -/
theorem go_eq_some_iff (hb : b.Valid t) {name : String} {id : SymbolId}
    (hfuel : ∀ s, b.scope? scope = some s → scope < fuel) :
    resolve?.go b name fuel (some scope) = some id ↔ b.Innermost name scope id := by
  induction fuel generalizing scope with
  | zero =>
    refine iff_of_false nofun (not_innermost ?_)
    exact Option.eq_none_iff_forall_ne_some.mpr fun s hs => Nat.not_lt_zero _ (hfuel s hs)
  | succ fuel ih =>
    simp only [resolve?.go, Option.bind_eq_bind, Option.bind_some]
    cases hs : b.scope? scope with
    | none => exact iff_of_false nofun (not_innermost hs)
    | some s =>
      rw [Option.bind_some, innermost_iff hs]
      cases hlookup : s.lookup name with
      | some found => simp
      | none =>
        cases hparent : s.parent with
        | none => cases fuel <;> simp [resolve?.go]
        | some parent =>
          have hlt : parent < fuel :=
            Nat.lt_of_lt_of_le (hb.parent_lt hs hparent) (Nat.le_of_lt_succ (hfuel s hs))
          simp [ih fun _ _ => hlt]

theorem resolve?_eq_some_iff (hb : b.Valid t) {name : String} {id : SymbolId} :
    b.resolve? name scope = some id ↔ b.Innermost name scope id :=
  go_eq_some_iff hb fun _ hs => Nat.lt_succ_of_lt (lt_of_scope? hs)

/-- The innermost symbol of a name has that name. -/
theorem Innermost.symbol? {name : String} {id : SymbolId} (h : b.Innermost name scope id)
    (hb : b.Valid t) : ∃ symbol, b.symbol? id = some symbol ∧ symbol.name = name := by
  induction h with
  | here hs hlookup =>
    obtain ⟨symbol, hsymbol, hname, -⟩ := hb.symbol_of_lookup hs hlookup
    exact ⟨symbol, hsymbol, hname⟩
  | outer _ _ _ _ ih => exact ih

end Table

/-! ### Resolving one name after another -/

theorem resolveName_eq (scope : ScopeId) (node : NodeId) (name : String) :
    resolveName scope node name = modify (·.refer ⟨scope, node, name⟩) := by
  unfold resolveName Table.refer Table.meaning
  congr
  funext b
  dsimp only
  cases b.symbolAt? node with
  | some _ => rfl
  | none => cases b.resolve? name scope <;> rfl

/-- Resolving leaves the scopes as they are. -/
structure Table.SameScopes (b b' : Table) : Prop where
  scopes : b'.scopes = b.scopes
  symbols : b'.symbols = b.symbols
  nodeScopes : b'.nodeScopes = b.nodeScopes

theorem Table.sameScopes_refer (b : Table) (u : Use) : b.SameScopes (b.refer u) := by
  unfold refer
  split <;> exact ⟨rfl, rfl, rfl⟩

theorem Table.sameScopes_foldl (us : List Use) (b : Table) : b.SameScopes (us.foldl refer b) := by
  induction us generalizing b with
  | nil => exact ⟨rfl, rfl, rfl⟩
  | cons u us ih =>
    have h := sameScopes_refer b u
    have h' := ih (b.refer u)
    exact ⟨h'.scopes.trans h.scopes, h'.symbols.trans h.symbols, h'.nodeScopes.trans h.nodeScopes⟩

theorem Table.SameScopes.scopeAt?_eq {b b' : Table} (h : b.SameScopes b') :
    b'.scopeAt? = b.scopeAt? := by
  funext node
  rw [scopeAt?, scopeAt?, h.nodeScopes]

theorem run_bind_of_run {α β : Type} {x : Binder α} {f : α → Binder β} {a : α} {b' : Table}
    (h : x.run b = (a, b')) : (x >>= f).run b = (f a).run b' := by
  show (f (x.run b).1).run (x.run b).2 = _
  rw [h]

/-- Steps that resolve names in the same scopes, one after another. -/
theorem run_forM_resolve (ids : List NodeId) {step : NodeId → Binder Unit}
    {uses : NodeId → List Use} (b : Table) (h : ∀ id ∈ ids, ∀ b', b.SameScopes b' →
      (step id).run b' = ((), (uses id).foldl Table.refer b')) :
    (ids.forM step).run b = ((), (ids.flatMap uses).foldl Table.refer b) := by
  induction ids generalizing b with
  | nil => rfl
  | cons id ids ih =>
    have hfirst := h id List.mem_cons_self b ⟨rfl, rfl, rfl⟩
    have hsame := Table.sameScopes_foldl (uses id) b
    have hrest := ih ((uses id).foldl Table.refer b) fun id' hid' b' hb' =>
      h id' (List.mem_cons_of_mem id hid') b' ⟨hb'.scopes.trans hsame.scopes,
        hb'.symbols.trans hsame.symbols, hb'.nodeScopes.trans hsame.nodeScopes⟩
    rw [List.flatMap_cons, List.foldl_append, ← hrest]
    exact run_bind_of_run hfirst

/-- The walk resolves the names that it meets, one after another. -/
theorem run_resolveUpTo (b : Table) : (resolveUpTo t fuel scope id).run b =
    ((), (usesUpTo t b.scopeAt? fuel scope id).foldl Table.refer b) := by
  induction fuel generalizing scope id b with
  | zero => rfl
  | succ fuel ih =>
    rw [resolveUpTo]
    split
    · next hdata => rw [usesUpTo, hdata]; rfl
    · next name hdata => rw [usesUpTo, hdata, resolveName_eq]; rfl
    · next data hother hdata =>
      have hpart (inner : ScopeId) (b b' : Table) (h : b.SameScopes b') (child : NodeId) :
          (resolveUpTo t fuel inner child).run b' =
            ((), (usesUpTo t b.scopeAt? fuel inner child).foldl Table.refer b') := by
        rw [ih, h.scopeAt?_eq]
      have hkeys := run_forM_resolve (outerKey t data) b fun child _ b' h =>
        hpart scope b b' h child
      generalize hafter : ((outerKey t data).flatMap
        (usesUpTo t b.scopeAt? fuel scope)).foldl Table.refer b = after at hkeys
      have hsame : b.SameScopes after := hafter ▸ Table.sameScopes_foldl _ b
      have hparts := run_forM_resolve (referringParts t data) after fun child _ b' h =>
        hpart ((b.scopeAt? id).getD scope) after b' h child
      rw [run_bind_of_run hkeys]
      show ((referringParts t data).forM
        (resolveUpTo t fuel ((after.scopeAt? id).getD scope))).run after = _
      rw [hsame.scopeAt?_eq] at hparts ⊢
      rw [hparts]
      simp only [usesUpTo, hdata, usedParts, List.flatMap_append, List.flatMap_map,
        List.foldl_append, hafter]

/-- The names of a tree that may refer to something. -/
def uses (t : Tree) (root : NodeId) : List Use :=
  usesUpTo t (Table.declared t root).scopeAt? (t.size + 1) 0 root

/-- The table of a tree is the one in which everything is declared, with the names resolved. -/
theorem Table.ofTree_eq (t : Tree) (root : NodeId) :
    Table.ofTree t root = (uses t root).foldl refer (.declared t root) := by
  have h : (resolveUpTo t (t.size + 1) 0 root).run (.declared t root) =
      ((), (uses t root).foldl refer (.declared t root)) := run_resolveUpTo _
  exact congrArg Prod.snd h

/-! ### What resolving a name leaves -/

namespace Table

variable {u v : Use} {us : List Use}

theorem SameScopes.resolve?_eq {b b' : Table} (h : b.SameScopes b') : b'.resolve? = b.resolve? := by
  have hgo (name : String) (fuel : Nat) (scope : Option ScopeId) :
      resolve?.go b' name fuel scope = resolve?.go b name fuel scope := by
    induction fuel generalizing scope with
    | zero => rfl
    | succ fuel ih => simp only [resolve?.go, scope?, h.scopes, ih]
  funext name scope
  rw [resolve?, resolve?, hgo, h.scopes]

theorem meaning_eq_declares_iff : b.meaning u = .declares ↔ ∃ id, b.symbolAt? u.node = some id := by
  unfold meaning
  cases b.symbolAt? u.node <;> cases b.resolve? u.name u.scope <;> simp

theorem meaning_eq_refers_iff {id : SymbolId} : b.meaning u = .refers id ↔
    b.symbolAt? u.node = none ∧ b.resolve? u.name u.scope = some id := by
  unfold meaning
  cases b.symbolAt? u.node <;> cases b.resolve? u.name u.scope <;> simp

theorem meaning_eq_nothing_iff : b.meaning u = .nothing ↔
    b.symbolAt? u.node = none ∧ b.resolve? u.name u.scope = none := by
  unfold meaning
  cases b.symbolAt? u.node <;> cases b.resolve? u.name u.scope <;> simp

/-- Resolving a name maps no other node. -/
theorem symbolAt?_refer_of_ne {node : NodeId} (h : v.node ≠ node) :
    (b.refer v).symbolAt? node = b.symbolAt? node := by
  unfold refer
  split
  · rfl
  · rw [symbolAt?, symbolAt?, Array.getElem?_setIfInBounds_ne h]
  · rfl

/-- A name that is resolved is mapped to the symbol that it declares or refers to. -/
theorem symbolAt?_refer (h : u.node < b.nodeSymbols.size) : (b.refer u).symbolAt? u.node =
    (b.symbolAt? u.node).or (b.resolve? u.name u.scope) := by
  unfold refer meaning
  cases hsymbol : b.symbolAt? u.node with
  | some id => exact hsymbol
  | none =>
    cases b.resolve? u.name u.scope with
    | some id => simp [symbolAt?, h]
    | none => exact hsymbol

/-- What a name means does not change when another name is resolved. -/
theorem meaning_refer (h : v.node ≠ u.node) : (b.refer v).meaning u = b.meaning u := by
  rw [meaning, meaning, symbolAt?_refer_of_ne h, (sameScopes_refer b v).resolve?_eq]

theorem Valid.refer (hb : b.Valid t) (hu : t.data? u.node = some (.identifier u.name)) :
    (b.refer u).Valid t := by
  unfold Table.refer
  split
  · exact hb
  · next id hmeaning =>
    have hinner := (resolve?_eq_some_iff hb).mp (meaning_eq_refers_iff.mp hmeaning).2
    obtain ⟨symbol, hsymbol, hname⟩ := hinner.symbol? hb
    have hspells : Spells t u.node symbol.name := .inl (hname ▸ hu)
    have h := (hb.mapped hsymbol hspells).valid
    exact ⟨h.size_nodeSymbols, (Array.size_modify ..).trans h.size_references, h.parent_lt,
      h.symbol_of_lookup, h.lookup_of_symbol, h.symbol_of_node, h.scope_of_node⟩
  · exact ⟨hb.size_nodeSymbols, hb.size_references, hb.parent_lt, hb.symbol_of_lookup,
      hb.lookup_of_symbol, hb.symbol_of_node, hb.scope_of_node⟩

theorem referencesOf_refer (hb : b.Valid t) (id : SymbolId) : (b.refer u).referencesOf id =
    b.referencesOf id ++ if b.meaning u = .refers id then [u.node] else [] := by
  unfold refer
  cases hmeaning : b.meaning u with
  | declares => simp
  | nothing => simp [referencesOf]
  | refers found =>
    have hinner := (resolve?_eq_some_iff hb).mp (meaning_eq_refers_iff.mp hmeaning).2
    obtain ⟨symbol, hsymbol, -⟩ := hinner.symbol? hb
    have hlt : found < b.references.size := hb.size_references ▸ lt_of_symbol? hsymbol
    show ((b.references.modify found _)[id]?).getD [] = (b.references[id]?).getD [] ++ _
    rw [Array.getElem?_modify]
    by_cases hid : found = id
    · subst hid
      simp [hlt]
    · simp [hid]

theorem unresolved_refer : (b.refer u).unresolved =
    b.unresolved ++ if b.meaning u = .nothing then [(u.node, u.name)] else [] := by
  unfold refer
  cases b.meaning u <;> simp

/-! ### What resolving all names leaves -/

theorem Valid.foldl_refer (hb : b.Valid t)
    (hus : ∀ u ∈ us, t.data? u.node = some (.identifier u.name)) :
    (us.foldl Table.refer b).Valid t := by
  induction us generalizing b with
  | nil => exact hb
  | cons u us ih =>
    exact ih (hb.refer (hus u List.mem_cons_self)) fun v hv => hus v (List.mem_cons_of_mem u hv)

theorem symbolAt?_foldl_refer_of_notMem {node : NodeId} (h : ∀ u ∈ us, u.node ≠ node) :
    (us.foldl refer b).symbolAt? node = b.symbolAt? node := by
  induction us generalizing b with
  | nil => rfl
  | cons u us ih =>
    rw [List.foldl_cons, ih fun v hv => h v (List.mem_cons_of_mem u hv),
      symbolAt?_refer_of_ne (h u List.mem_cons_self)]

theorem count_map_filter {p : Use → Bool} (hne : us.Pairwise fun u v => u.node ≠ v.node)
    (hu : u ∈ us) : ((us.filter p).map Use.node).count u.node = if p u then 1 else 0 := by
  have hnodup : (us.map Use.node).Nodup := List.pairwise_map.mpr hne
  have hmem : u.node ∈ (us.filter p).map Use.node ↔ p u := by
    refine ⟨fun h => ?_, fun h => List.mem_map_of_mem (List.mem_filter.mpr ⟨hu, h⟩)⟩
    obtain ⟨v, hv, hnode⟩ := List.mem_map.mp h
    obtain ⟨hv, hp⟩ := List.mem_filter.mp hv
    rwa [← List.inj_on_of_nodup_map hnodup hv hu hnode]
  rw [(hnodup.sublist (List.filter_sublist.map _)).count]
  simp only [hmem]

/-- What a table says of a name: that it declares a symbol, that it refers to the innermost symbol
of its text, or that there is none. -/
inductive Records (b : Table) (u : Use) : Prop where
  | declares {id : SymbolId} (hsymbol : b.symbolAt? u.node = some id)
      (hreferences : ∀ id, u.node ∉ b.referencesOf id)
      (hunresolved : u.node ∉ b.unresolved.map Prod.fst)
  | refers {id : SymbolId} (hinner : b.Innermost u.name u.scope id)
      (hsymbol : b.symbolAt? u.node = some id)
      (hreferences : ∀ id', (b.referencesOf id').count u.node = if id' = id then 1 else 0)
      (hunresolved : u.node ∉ b.unresolved.map Prod.fst)
  | nothing (hinner : ∀ id, ¬ b.Innermost u.name u.scope id) (hsymbol : b.symbolAt? u.node = none)
      (hreferences : ∀ id, u.node ∉ b.referencesOf id)
      (hunresolved : (b.unresolved.map Prod.fst).count u.node = 1)

section Once

variable (hb : b.Valid t) (hdata : ∀ u ∈ us, t.data? u.node = some (.identifier u.name))
  (hne : us.Pairwise fun u v => u.node ≠ v.node)
include hb hdata hne

/-- A list that gets an entry for every name of a certain meaning gets them in the order of the
names: what a name means does not change when others are resolved. -/
theorem foldl_refer_eq_append {γ : Type} (list : Table → List γ) (p : Meaning → Bool)
    (entry : Use → γ) (hone : ∀ (b : Table) (u : Use), b.Valid t →
      list (b.refer u) = list b ++ if p (b.meaning u) then [entry u] else []) :
    list (us.foldl refer b) = list b ++ (us.filter fun u => p (b.meaning u)).map entry := by
  induction us generalizing b with
  | nil => simp
  | cons u us ih =>
    obtain ⟨hu, hus⟩ := List.pairwise_cons.mp hne
    have hrest := ih (hb.refer (hdata u List.mem_cons_self))
      (fun v hv => hdata v (List.mem_cons_of_mem u hv)) hus
    have hmeaning : us.filter (fun v => p ((b.refer u).meaning v)) =
        us.filter fun v => p (b.meaning v) :=
      List.filter_congr fun v hv => by rw [meaning_refer (hu v hv)]
    rw [List.foldl_cons, hrest, hmeaning, hone b u hb, List.append_assoc, List.filter_cons]
    split <;> simp

theorem referencesOf_foldl_refer (id : SymbolId) : (us.foldl refer b).referencesOf id =
    b.referencesOf id ++ (us.filter fun u => b.meaning u = .refers id).map Use.node :=
  foldl_refer_eq_append hb hdata hne (referencesOf · id) (· = .refers id) Use.node fun b u hb => by
    rw [referencesOf_refer hb]
    simp only [decide_eq_true_eq]

theorem unresolved_foldl_refer : (us.foldl refer b).unresolved =
    b.unresolved ++ (us.filter fun u => b.meaning u = .nothing).map fun u => (u.node, u.name) :=
  foldl_refer_eq_append hb hdata hne unresolved (· = .nothing) _ fun b u _ => by
    rw [unresolved_refer]
    simp only [decide_eq_true_eq]

theorem symbolAt?_foldl_refer (hu : u ∈ us) : (us.foldl refer b).symbolAt? u.node =
    (b.symbolAt? u.node).or (b.resolve? u.name u.scope) := by
  obtain ⟨before, after, rfl⟩ := List.append_of_mem hu
  obtain ⟨-, hafter, hbefore⟩ := List.pairwise_append.mp hne
  have hvalid : (before.foldl refer b).Valid t :=
    hb.foldl_refer fun v hv => hdata v (List.mem_append_left _ hv)
  have hlt : u.node < (before.foldl refer b).nodeSymbols.size :=
    hvalid.size_nodeSymbols ▸ Tree.lt_size_of_data? (hdata u hu)
  -- Only resolving the name itself maps its node.
  rw [List.foldl_append, List.foldl_cons,
    symbolAt?_foldl_refer_of_notMem fun v hv => (List.rel_of_pairwise_cons hafter hv).symm,
    symbolAt?_refer hlt, (sameScopes_foldl before b).resolve?_eq,
    symbolAt?_foldl_refer_of_notMem fun v hv => hbefore v hv u List.mem_cons_self]

theorem count_referencesOf_foldl_refer (hreferences : ∀ id, b.referencesOf id = []) (hu : u ∈ us)
    (id : SymbolId) : ((us.foldl refer b).referencesOf id).count u.node =
      if b.meaning u = .refers id then 1 else 0 := by
  rw [referencesOf_foldl_refer hb hdata hne, hreferences, List.nil_append, count_map_filter hne hu]
  simp only [decide_eq_true_eq]

theorem count_unresolved_foldl_refer (hunresolved : b.unresolved = []) (hu : u ∈ us) :
    ((us.foldl refer b).unresolved.map Prod.fst).count u.node =
      if b.meaning u = .nothing then 1 else 0 := by
  rw [unresolved_foldl_refer hb hdata hne, hunresolved, List.nil_append, List.map_map,
    show Prod.fst ∘ (fun u : Use => (u.node, u.name)) = Use.node from rfl, count_map_filter hne hu]
  simp only [decide_eq_true_eq]

/-- Names that are met once each are recorded for what they mean. -/
theorem records_foldl_refer (hreferences : ∀ id, b.referencesOf id = [])
    (hunresolved : b.unresolved = []) (hu : u ∈ us) : (us.foldl refer b).Records u := by
  have hvalid : (us.foldl refer b).Valid t := hb.foldl_refer hdata
  have hresolve := (sameScopes_foldl us b).resolve?_eq
  have hsymbol := symbolAt?_foldl_refer hb hdata hne hu
  have hcount := count_referencesOf_foldl_refer hb hdata hne hreferences hu
  have hcount' := count_unresolved_foldl_refer hb hdata hne hunresolved hu
  cases hmeaning : b.meaning u with
  | declares =>
    obtain ⟨id, hid⟩ := meaning_eq_declares_iff.mp hmeaning
    rw [hid, Option.some_or] at hsymbol
    refine .declares hsymbol (fun id' => List.count_eq_zero.mp ?_) (List.count_eq_zero.mp ?_)
    · rw [hcount, if_neg (hmeaning ▸ nofun)]
    · rw [hcount', if_neg (hmeaning ▸ nofun)]
  | refers id =>
    obtain ⟨hnone, hid⟩ := meaning_eq_refers_iff.mp hmeaning
    rw [hnone, hid, Option.none_or] at hsymbol
    refine .refers ((resolve?_eq_some_iff hvalid).mp (hresolve ▸ hid)) hsymbol (fun id' => ?_)
      (List.count_eq_zero.mp ?_)
    · rw [hcount, hmeaning]
      simp only [Meaning.refers.injEq, eq_comm]
    · rw [hcount', if_neg (hmeaning ▸ nofun)]
  | nothing =>
    obtain ⟨hnone, hname⟩ := meaning_eq_nothing_iff.mp hmeaning
    rw [hnone, hname, Option.none_or] at hsymbol
    refine .nothing (fun id hinner => ?_) hsymbol (fun id => List.count_eq_zero.mp ?_) ?_
    · have hsome := (resolve?_eq_some_iff hvalid).mpr hinner
      rw [hresolve, hname] at hsome
      cases hsome
    · rw [hcount, if_neg (hmeaning ▸ nofun)]
    · rw [hcount', if_pos hmeaning]

end Once

/-- The names that are met stand in the order of the text. Each of them is recorded for what it
means, and nothing else is. -/
structure Classifies (t : Tree) (names : List Use) (b : Table) : Prop where
  ordered : (names.map Use.node).Pairwise fun x y => x ≠ y ∧ t.Before x y
  identifier : ∀ u ∈ names, t.data? u.node = some (.identifier u.name)
  /-- No key, no member name and no label is met. -/
  referring : ∀ u ∈ names, ∃ parent d, t.parent? u.node = some parent ∧ t.data? parent = some d ∧
    u.node ∈ outerKey t d ++ referringParts t d
  records : ∀ u ∈ names, b.Records u
  references : ∀ id, (b.referencesOf id).Sublist (names.map Use.node)
  unresolved : b.unresolved.Sublist (names.map fun u => (u.node, u.name))

theorem classifies_ofTree {text : List Char} {root : NodeId} (ht : t.Nested text)
    (hroot : ∀ name, t.data? root ≠ some (.identifier name)) :
    (Table.ofTree t root).Valid t ∧ Classifies t (uses t root) (.ofTree t root) := by
  have hdeclares := declares_declared t root
  have hdata (u : Use) (hu : u ∈ uses t root) : t.data? u.node = some (.identifier u.name) :=
    data?_of_mem_usesUpTo hu
  have hordered : (uses t root).Pairwise fun u v => u.node ≠ v.node ∧ t.Before u.node v.node :=
    pairwise_usesUpTo ht
  have hne : (uses t root).Pairwise fun u v => u.node ≠ v.node := hordered.imp And.left
  rw [ofTree_eq]
  refine ⟨hdeclares.valid.foldl_refer hdata, List.pairwise_map.mpr hordered, hdata,
    fun u hu => ?_, fun u hu => ?_, fun id => ?_, ?_⟩
  · exact (referring_of_mem_usesUpTo ht hu).resolve_left fun h => hroot u.name (h ▸ hdata u hu)
  · exact records_foldl_refer hdeclares.valid hdata hne hdeclares.referencesOf
      hdeclares.unresolved hu
  · rw [referencesOf_foldl_refer hdeclares.valid hdata hne, hdeclares.referencesOf]
    exact List.filter_sublist.map _
  · rw [unresolved_foldl_refer hdeclares.valid hdata hne, hdeclares.unresolved]
    exact List.filter_sublist.map _

end Table

end Unchain.Binding

namespace Unchain.SourceFile

open Binding (uses)

/-- In a text without errors every name that is met declares a symbol, refers to the innermost
symbol of its text or is unresolved, and the references to a symbol are in the order of the text. -/
theorem ofSource_classifies (fileName source : String)
    (h : (ofSource fileName source).errors = []) :
    let read := ofSource fileName source
    read.bindings.Valid read.tree ∧
      read.bindings.Classifies read.tree (uses read.tree read.root) := by
  simp only [ofSource] at h ⊢
  obtain ⟨s, htree, hholds, statements, endOfFile, parent, hroot⟩ := SourceTree.exists_holds h
  have hdata := Syntax.Tree.data?_of_node? hroot
  rw [← htree] at hdata
  refine Binding.Table.classifies_ofTree (htree ▸ hholds.placed.nested) fun name hname => ?_
  rw [hdata] at hname
  cases hname

end Unchain.SourceFile
