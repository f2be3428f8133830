import Unchain.Conversion.Plan
import Unchain.Proofs.Binding.Owned
import Unchain.Proofs.Naming.Distinct

/-!
# Bindings that have an entry

Entering a handler enters what it reads, and nothing is taken out of the
register again (`enters_enterSite?`). So when the names are chosen there is an
entry for what any handler reads that is converted along with the chains
(`isSome_of_choose?`), and counting the writes leaves it there
(`isSome_of_plan?`).

A parameter has a name only if its symbol belongs to a function that is written
into the body, so that has to be known of the parameters that handlers read.
-/

namespace Unchain.Naming

open Binding (SymbolId Table)
open Chain (Group)
open Promise (Oracle)
open Syntax (Node NodeId Tree)

variable {source t : Tree} {b : Table} {o : Oracle} {names : List (SymbolId × String)}
  {r r' : Register} {site : Site} {key : Key}

namespace Register

/-- Every binding with an entry in `r` has one in `r'`. -/
def Extends (r r' : Register) : Prop := ∀ key, (r.get? key).isSome → (r'.get? key).isSome

theorem Extends.refl (r : Register) : r.Extends r := fun _ h => h

theorem Extends.trans {r'' : Register} (h : r.Extends r') (h' : r'.Extends r'') : r.Extends r'' :=
  fun key hkey => h' key (h key hkey)

theorem extends_pin (r : Register) (name : String) : r.Extends (r.pin name) := fun _ h => h

theorem extends_insert (r : Register) (key : Key) (name : String) :
    r.Extends (r.insert key name) := by
  intro other h
  rw [get?_insert]
  split
  · rfl
  · exact h

theorem extends_modify (r : Register) (key : Key) (f : Entry → Entry) :
    r.Extends (r.modify key f) := by
  intro other h
  rw [get?_modify]
  split
  · next heq => rw [Option.isSome_map, ← heq]; exact h
  · exact h

/-- Steps that take nothing out, one after another. -/
theorem extends_foldl {α : Type} {step : Register → α → Register} {list : List α}
    (h : ∀ r : Register, ∀ a ∈ list, r.Extends (step r a)) (r : Register) :
    r.Extends (list.foldl step r) := by
  induction list generalizing r with
  | nil => exact .refl r
  | cons a list ih =>
    exact (h r a List.mem_cons_self).trans (ih (fun r c hc => h r c (List.mem_cons_of_mem a hc)) _)

end Register

/-! ### Handlers -/

/-- A value gets an entry, and so does a parameter that has a name. -/
def Enterable (names : List (SymbolId × String)) : Key → Prop
  | .parameter id => (names.lookup id).isSome
  | .minted _ => True
  | .result _ => False

/-- Entering a handler enters what it reads. -/
theorem enters_enterSite? (h : enterSite? source b o names r site = some r') :
    r.Extends r' ∧ ∀ key, siteKey? source b site = some key → Enterable names key →
      (r'.get? key).isSome := by
  unfold enterSite? at h
  -- By what the handler reads: a parameter, a name that is minted, or nothing.
  split at h
  · next id hkey =>
    split at h
    · next name hname =>
      obtain rfl := Option.some.inj h
      refine ⟨Register.extends_insert _ _ _, fun key hkey' _ => ?_⟩
      obtain rfl := Option.some.inj (hkey.symm.trans hkey')
      rw [Register.get?_insert, if_pos rfl]
      rfl
    · next hname =>
      obtain rfl := Option.some.inj h
      refine ⟨.refl r, fun key hkey' hnamed => ?_⟩
      obtain rfl := Option.some.inj (hkey.symm.trans hkey')
      rw [Enterable, hname] at hnamed
      cases hnamed
  · next handler hkey =>
    split at h
    · next hentered =>
      obtain rfl := Option.some.inj h
      refine ⟨.refl r, fun key hkey' _ => ?_⟩
      obtain rfl := Option.some.inj (hkey.symm.trans hkey')
      exact hentered
    · obtain ⟨⟨name, register⟩, hreserve, h⟩ := Option.bind_eq_some_iff.mp h
      obtain ⟨-, rfl⟩ := of_reserve? hreserve
      obtain rfl := Option.some.inj h
      refine ⟨(r.extends_pin name).trans (Register.extends_insert _ _ _), fun key hkey' _ => ?_⟩
      obtain rfl := Option.some.inj (hkey.symm.trans hkey')
      rw [Register.get?_insert, if_pos rfl]
      rfl
  · next hparameter hminted =>
    obtain rfl := Option.some.inj h
    refine ⟨.refl r, fun key hkey hnamed => ?_⟩
    cases key with
    | parameter id => exact absurd hkey (hparameter id)
    | minted handler => exact absurd hkey (hminted handler)
    | result id => exact hnamed.elim

/-- One handler after another is entered. -/
theorem enters_foldlM_enterSite? {sites : List Site}
    (h : sites.foldlM (enterSite? source b o names) r = some r') :
    r.Extends r' ∧ ∀ site ∈ sites, ∀ key, siteKey? source b site = some key → Enterable names key →
      (r'.get? key).isSome := by
  induction sites generalizing r with
  | nil =>
    obtain rfl := Option.some.inj h
    exact ⟨.refl r, nofun⟩
  | cons site rest ih =>
    rw [List.foldlM_cons] at h
    obtain ⟨middle, hstep, hrest⟩ := Option.bind_eq_some_iff.mp h
    obtain ⟨hextends, hsite⟩ := enters_enterSite? hstep
    obtain ⟨hextends', hsites⟩ := ih hrest
    refine ⟨hextends.trans hextends', fun site' hmem key hkey hnamed => ?_⟩
    rcases List.mem_cons.mp hmem with rfl | hmem
    · exact hextends' key (hsite key hkey hnamed)
    · exact hsites site' hmem key hkey hnamed

/-- Only the parameter of a function is read as one. -/
theorem literal_of_siteKey? {id : SymbolId} (h : siteKey? source b site = some (.parameter id)) :
    ∃ function, site.handler = .literal function ∧
      plainParameter? source b function = some (some id) := by
  obtain ⟨handler, role⟩ := site
  cases handler with
  | literal function =>
    refine ⟨function, rfl, ?_⟩
    cases hparameter : plainParameter? source b function with
    | none => cases role <;> simp [siteKey?, valueKey?, reasonKey?, hparameter] at h
    | some symbol =>
      cases symbol <;> cases role <;> simp [siteKey?, valueKey?, reasonKey?, hparameter] at h <;>
        rw [h]
  | _ => cases role <;> simp [siteKey?, valueKey?, reasonKey?] at h

/-- What a handler reads is no variable of the function. -/
theorem siteKey?_ne_result (id : SymbolId) : siteKey? source b site ≠ some (.result id) := by
  obtain ⟨handler, role⟩ := site
  cases role with
  | fulfillment =>
    cases handler with
    | literal function =>
      cases h : plainParameter? source b function <;> simp [siteKey?, valueKey?, h]
    | _ => simp [siteKey?, valueKey?]
  | rejection =>
    cases handler with
    | literal function =>
      cases h : plainParameter? source b function with
      | none => simp [siteKey?, reasonKey?, h]
      | some symbol => cases symbol <;> simp [siteKey?, reasonKey?, h]
    | _ => simp [siteKey?, reasonKey?]

/-! ### The functions that are written into the body -/

/-- The parameter that a handler reads belongs to the handler and is introduced inside `outer`. -/
def Owned (source : Tree) (b : Table) (outer : Node) (site : Site) : Prop :=
  ∀ id, siteKey? source b site = some (.parameter id) →
    ∃ handler symbol node, site.handler = .literal handler ∧ b.symbol? id = some symbol ∧
      ownerOf? source symbol = some handler ∧ source.node? symbol.nameNode = some node ∧
      outer.pos ≤ node.pos ∧ node.stop ≤ outer.stop

section

open Binding (Introduced Names OneParameter)
open Syntax (Data)

variable {text : List Char} {function parameter name : NodeId} {symbol : Binding.Symbol}

/-- A symbol that is introduced by a parameter of a function, or by its name, belongs to it. -/
theorem ownerOf?_of_names (ht : source.Branching)
    (h : OneParameter source function parameter name)
    (hnode : Names source function name symbol.nameNode) :
    ownerOf? source symbol = some function := by
  obtain ⟨k, f, hdata, hk, -⟩ := h.function
  obtain ⟨q, hp, -⟩ := h.parameter
  obtain ⟨n, hn⟩ : ∃ n, source.size = n + 2 := Nat.exists_eq_add_of_le' (Nat.succ_le_of_lt
    (Nat.lt_of_le_of_lt (Nat.succ_le_of_lt (Nat.zero_lt_of_lt (ht.older h.parameter_mem)))
      (Tree.lt_size_of_data? hdata)))
  have hfunction : source.isFunction function = true := by
    simp [Tree.isFunction, hdata, Data.isFunction]
  rcases hnode with hnode | hnode
  · have hnot : source.isFunction parameter = false := by
      simp [Tree.isFunction, hp, Data.isFunction]
    simp [ownerOf?, Tree.ancestors, hn, hnode, Tree.ancestors.go, ht.parent h.name_mem,
      ht.parent h.parameter_mem, hp, hnot, hfunction]
  · have hchild : symbol.nameNode ∈ source.children function := h.ownName_mem hnode
    have hd : ∀ g, source.data? function ≠ some (.function .declaration g) := by
      rw [hdata]
      rcases hk with rfl | rfl <;> exact nofun
    obtain ⟨rest, hrest⟩ : ∃ rest, source.ancestors symbol.nameNode = function :: rest :=
      ⟨_, by rw [Tree.ancestors, hn, Tree.ancestors.go, ht.parent hchild]⟩
    rw [ownerOf?, hrest]
    dsimp only
    split
    · next g hg => exact absurd hg (hd g)
    · exact List.find?_cons_of_pos hfunction

/-- What a function reads is introduced by its parameter. -/
theorem oneParameter_of_plainParameter? {id : SymbolId} {k : Syntax.FunctionKind}
    {f : Syntax.Function} (hdata : source.data? function = some (.function k f))
    (hk : k = .arrow ∨ k = .expression)
    (h : plainParameter? source b function = some (some id)) : ∃ parameter name symbol,
      OneParameter source function parameter name ∧ b.symbolAt? name = some id ∧
        b.symbol? id = some symbol := by
  unfold plainParameter? at h
  split at h
  · cases h
  · next hdata' =>
    split at h
    · next hparameter =>
      split at h
      · next hidentifier =>
        obtain ⟨id', hid, h⟩ := Option.bind_eq_some_iff.mp h
        obtain ⟨symbol, hsymbol, h⟩ := Option.bind_eq_some_iff.mp h
        split at h
        · cases h
        · obtain rfl := Option.some.inj (Option.some.inj h)
          obtain ⟨-, hf⟩ := Data.function.inj (Option.some.inj (hdata.symm.trans hdata'))
          exact ⟨_, _, symbol, ⟨⟨k, f, hdata, hk, by rw [hf]⟩, ⟨_, hparameter, rfl, rfl⟩,
            hidentifier⟩, hid, hsymbol⟩
      · cases h
    · cases h
  · cases h

/-- A handler that stands in the function owns its parameter. -/
theorem owned_of_below (ht : source.Nested text) {outer : Node}
    (houter : source.node? function = some outer)
    (hintroduced : ∀ {handler parameter name}, OneParameter source handler parameter name →
      Introduced (Names source handler name) name b)
    (hliteral : ∀ handler, site.handler = .literal handler → source.Below function handler ∧
      ∃ k f, source.data? handler = some (.function k f) ∧ (k = .arrow ∨ k = .expression)) :
    Owned source b outer site := by
  intro id hid
  obtain ⟨handler, hhandler, hparameter⟩ := literal_of_siteKey? hid
  obtain ⟨hbelow, k, f, hdata, hk⟩ := hliteral handler hhandler
  obtain ⟨parameter, name, symbol, hone, hname, hsymbol⟩ :=
    oneParameter_of_plainParameter? hdata hk hparameter
  obtain ⟨symbol', hsymbol', hnames⟩ := hintroduced hone id hname
  obtain rfl := Option.some.inj (hsymbol.symm.trans hsymbol')
  obtain ⟨node, hnode, hpos, hstop⟩ := (hbelow.trans (hone.below_of_names hnames)).within ht houter
  exact ⟨handler, symbol, node, hhandler, hsymbol, ownerOf?_of_names ht.branching hone hnames,
    hnode, hpos, hstop⟩

end

/-- When names are chosen, there is an entry for what the handlers read. -/
theorem isSome_of_choose? {function : NodeId} {chains : List NodeId} {tree : Tree} {outer : Node}
    (h : choose? source b o function chains t = some (r, tree))
    (houter : source.node? function = some outer) {chain : NodeId} (hchain : chain ∈ chains)
    (hsite : site ∈ sitesOf t o chain) (howned : Owned source b outer site)
    (hkey : siteKey? source b site = some key) : (r.get? key).isSome := by
  obtain ⟨outer', houter', h⟩ := Option.bind_eq_some_iff.mp h
  obtain rfl := Option.some.inj (houter.symm.trans houter')
  obtain ⟨choice, hchoice, h⟩ := Option.bind_eq_some_iff.mp h
  obtain ⟨entered, henter, h⟩ := Option.bind_eq_some_iff.mp h
  obtain ⟨rfl, -⟩ := Prod.mk.inj (Option.some.inj h)
  obtain ⟨-, hsome, -⟩ := of_chooseSymbols? hchoice
  have hmem : site ∈ sitesInOrder source o outer chains t :=
    (Text.stableSort_perm _ _).mem_iff.mpr (List.mem_flatMap.mpr ⟨chain, hchain, hsite⟩)
  refine (enters_foldlM_enterSite? henter).2 site hmem key hkey ?_
  cases key with
  | minted handler => trivial
  | result id => exact absurd hkey (siteKey?_ne_result id)
  | parameter id =>
    obtain ⟨handler, symbol, node, hliteral, hsymbol, howner, hnode, hpos, hstop⟩ :=
      howned id hkey
    refine (hsome id).mpr ⟨?_, ?_⟩
    · obtain ⟨hid, -⟩ := Array.getElem?_eq_some_iff.mp hsymbol
      refine List.mem_filter.mpr ⟨List.mem_range.mpr hid, ?_⟩
      simp [hsymbol, hnode, hpos, hstop]
    · have hhandler : handler ∈ ownersOf function (sitesInOrder source o outer chains t) :=
        List.mem_cons_of_mem _ (List.mem_filterMap.mpr ⟨site, hmem, by rw [hliteral]⟩)
      simp [belongsTo, hsymbol, howner, hhandler]

/-! ### Counting writes -/

theorem extends_seedLink (r : Register) (link : Chain.Link) :
    r.Extends (seedLink t b o r link) := by
  unfold seedLink
  split
  · split
    · exact Register.extends_modify _ _ _
    · exact .refl r
  · exact .refl r

theorem extends_seedUpTo (depth : Nat) (r : Register) (e : NodeId) :
    r.Extends (seedUpTo t b o depth r e) := by
  induction depth generalizing r e with
  | zero => exact .refl r
  | succ depth ih =>
    refine Register.extends_foldl (fun r entry _ => ?_) r
    refine (extends_seedLink r entry.2).trans (Register.extends_foldl (fun r site _ => ?_) _)
    exact Register.extends_foldl (fun r chain _ => ih r chain) r

/-- The variable that a group returns gets an entry. -/
theorem enters_bindResult (r : Register) (group : Group) :
    r.Extends (bindResult t b o source r group) ∧
      ∀ id, group.result = some id → (b.symbol? id).isSome →
        ((bindResult t b o source r group).get? (.result id)).isSome := by
  unfold bindResult
  split
  · next hnone =>
    refine ⟨.refl r, fun id hid hsymbol => ?_⟩
    rw [hid, Option.bind_some, Option.map_eq_none_iff] at hnone
    rw [hnone] at hsymbol
    cases hsymbol
  · next id symbol hsome =>
    have hdeclare (seeded : Register) (isInside : Bool) :
        seeded.Extends (if isInside then seeded else seeded.declare (.result id)) := by
      split
      · exact .refl seeded
      · exact Register.extends_modify _ _ _
    refine ⟨(r.extends_pin _).trans ((Register.extends_insert _ (.result id) _).trans
      ((Register.extends_modify _ _ _).trans (hdeclare _ _))), fun id' hid _ => hdeclare _ _ _ ?_⟩
    rw [hid, Option.bind_some] at hsome
    obtain ⟨_, -, heq⟩ := Option.map_eq_some_iff.mp hsome
    obtain ⟨rfl, -⟩ := Prod.mk.inj heq
    rw [Register.seed, Register.get?_modify, if_pos rfl, Option.isSome_map, Register.get?_insert,
      if_pos rfl]
    rfl

end Unchain.Naming

namespace Unchain.Conversion

open Chain (Group)
open Naming (Key Owned Register Site siteKey? sitesOf)
open Promise (Oracle)
open Syntax (Node NodeId Tree)

/-- When a function is planned, there is an entry for what the handlers read that are converted
along with its chains, and for the variables that its groups return. -/
theorem isSome_of_plan? {s : SourceFile} {o : Oracle} {function : NodeId} {groups : List Group}
    {t : Tree} {plan : Plan} {outer : Node} {key : Key}
    (h : plan? s o function groups t = some plan) (houter : s.tree.node? function = some outer)
    (howned : ∀ group ∈ groups, ∀ site ∈ sitesOf t o group.chain,
      Owned s.tree s.bindings outer site)
    (hresult : ∀ group ∈ groups, ∀ id, group.result = some id → (s.bindings.symbol? id).isSome)
    (hkey : ∃ group ∈ groups, (∃ site ∈ sitesOf t o group.chain,
      siteKey? s.tree s.bindings site = some key) ∨ sinkOf group = .binding key) :
    (plan.state.register.get? key).isSome := by
  obtain ⟨⟨register, tree⟩, hchoose, h⟩ := Option.bind_eq_some_iff.mp h
  obtain rfl := Option.some.inj h
  obtain ⟨group, hgroup, ⟨site, hsite, hread⟩ | hsink⟩ := hkey
  · have hentry := Naming.isSome_of_choose? hchoose houter
      (List.mem_map_of_mem hgroup) hsite (howned group hgroup site hsite) hread
    refine Register.extends_foldl (fun r group _ => (Naming.enters_bindResult r group).1) _ key ?_
    exact Register.extends_foldl (fun r chain _ => Naming.extends_seedUpTo _ r chain) _ key hentry
  · obtain ⟨before, after, rfl⟩ := List.append_of_mem hgroup
    unfold sinkOf at hsink
    split at hsink
    · next id hid =>
      obtain rfl := Unroll.Sink.binding.inj hsink
      dsimp only
      rw [List.foldl_append, List.foldl_cons]
      refine Register.extends_foldl (fun r group _ => (Naming.enters_bindResult r group).1) _ _ ?_
      exact (Naming.enters_bindResult _ group).2 id hid (hresult group hgroup id hid)
    · split at hsink <;> cases hsink

end Unchain.Conversion
