import Unchain.Naming.Choose

/-!
# Distinct names

The bindings that come to stand in one body get names of their own. `Apart` says what holds of the
names while they are chosen: every name that was given, and every name that is pinned, is in use,
so that a name which is still free differs from all of them. Taking a free name for a binding
without a name keeps this (`Apart.add`); the loops over the symbols and over the handlers do
nothing else.
-/

namespace Unchain.Naming

open Binding (Symbol SymbolId Table)
open Promise (Oracle)
open Syntax (Node NodeId Tree)

variable {source : Tree} {b : Table}

/-! ### Pinned names -/

/-- The names that no binding of the owners may get in the function `outer`. -/
inductive Pinned (source : Tree) (b : Table) (outer : Node) (owners : List NodeId) : String → Prop
  /-- The name refers to nothing in the file. -/
  | unresolved {id name} (hname : (id, name) ∈ b.unresolved)
      (hid : isWithin source outer id = true) : Pinned source b outer owners name
  /-- The name is that of a binding from outside that is used inside. -/
  | outer {id symbol reference} (hsymbol : b.symbol? id = some symbol)
      (hid : id ∉ b.declaredBetween source outer.pos outer.stop)
      (href : reference ∈ b.referencesOf id) (hwithin : isWithin source outer reference = true) :
      Pinned source b outer owners symbol.name
  /-- The name is that of a binding in a function that stays as it is. -/
  | foreign {id symbol} (hsymbol : b.symbol? id = some symbol)
      (hid : id ∈ b.declaredBetween source outer.pos outer.stop)
      (howner : belongsTo source b owners id = false) : Pinned source b outer owners symbol.name

theorem mem_unresolvedWithin {outer : Node} {name : String} :
    name ∈ unresolvedWithin source b outer ↔
      ∃ id, (id, name) ∈ b.unresolved ∧ isWithin source outer id = true := by
  simp [unresolvedWithin]

theorem mem_outerNamesWithin {outer : Node} {inside : List SymbolId} {name : String} :
    name ∈ outerNamesWithin source b outer inside ↔
      ∃ id symbol reference, b.symbol? id = some symbol ∧ id ∉ inside ∧
        reference ∈ b.referencesOf id ∧ isWithin source outer reference = true ∧
        symbol.name = name := by
  rw [outerNamesWithin, List.mem_filterMap]
  constructor
  · rintro ⟨id, -, h⟩
    obtain ⟨symbol, hsymbol, h⟩ := Option.bind_eq_some_iff.mp h
    split at h
    · next hread =>
      obtain ⟨hid, href⟩ := Bool.and_eq_true_iff.mp hread
      obtain ⟨reference, href, hwithin⟩ := List.any_eq_true.mp href
      exact ⟨id, symbol, reference, hsymbol, by simpa using hid, href, hwithin,
        Option.some.inj h⟩
    · cases h
  · rintro ⟨id, symbol, reference, hsymbol, hid, href, hwithin, rfl⟩
    have hlt : id < b.symbols.size := (Array.getElem?_eq_some_iff.mp hsymbol).1
    have hread : (b.referencesOf id).any (isWithin source outer) = true :=
      List.any_eq_true.mpr ⟨reference, href, hwithin⟩
    exact ⟨id, List.mem_range.mpr hlt, by simp [hsymbol, hid, hread]⟩

theorem mem_pinnedNames {outer : Node} {owners : List NodeId} {name : String} :
    name ∈ pinnedNames source b outer owners ↔ Pinned source b outer owners name := by
  rw [pinnedNames, List.mem_append, List.mem_append, mem_unresolvedWithin, mem_outerNamesWithin]
  constructor
  · rintro ((⟨id, hname, hid⟩ | ⟨id, symbol, reference, hsymbol, hid, href, hwithin, rfl⟩) | h)
    · exact .unresolved hname hid
    · exact .outer hsymbol hid href hwithin
    · obtain ⟨id, hforeign, hname⟩ := List.mem_filterMap.mp h
      obtain ⟨symbol, hsymbol, rfl⟩ := Option.map_eq_some_iff.mp hname
      obtain ⟨hid, howner⟩ := List.mem_filter.mp hforeign
      exact .foreign hsymbol hid (by simpa using howner)
  · intro h
    cases h with
    | unresolved hname hid => exact .inl (.inl ⟨_, hname, hid⟩)
    | outer hsymbol hid href hwithin =>
        exact .inl (.inr ⟨_, _, _, hsymbol, hid, href, hwithin, rfl⟩)
    | foreign hsymbol hid howner =>
        refine .inr (List.mem_filterMap.mpr ⟨_, List.mem_filter.mpr ⟨hid, ?_⟩, ?_⟩)
        · simp [howner]
        · simp [hsymbol]

/-! ### Names that differ -/

/-- What gets a name: a binding of the source, or a value that has none, by the handler that it
goes to. -/
inductive Named where
  | symbol (id : SymbolId)
  | minted (handler : NodeId)
  deriving DecidableEq

/-- The name that was chosen, by the names of the symbols and the register. -/
def nameOf? (names : List (SymbolId × String)) (r : Register) : Named → Option String
  | .symbol id => names.lookup id
  | .minted handler => r.name? (.minted handler)

/-- The names differ from each other and from the pinned ones. Taking a name that is not in use
keeps them apart, since all these names are in use. -/
structure Apart (pinned : List String) (names : List (SymbolId × String)) (r : Register) :
    Prop where
  pinned_taken : ∀ name ∈ pinned, r.isTaken name = true
  taken : ∀ {x name}, nameOf? names r x = some name → r.isTaken name = true
  notPinned : ∀ {x name}, nameOf? names r x = some name → name ∉ pinned
  injective : ∀ {x y name}, nameOf? names r x = some name → nameOf? names r y = some name → x = y
  parameters : ∀ {id name}, r.name? (.parameter id) = some name → names.lookup id = some name

/-- Pinned names are in use. -/
theorem isTaken_foldl_pin (names : List String) (r : Register) (name : String) :
    (names.foldl Register.pin r).isTaken name = (names.contains name || r.isTaken name) := by
  induction names generalizing r with
  | nil => rfl
  | cons first rest ih =>
      rw [List.foldl_cons, ih, Register.isTaken_pin, List.contains_cons]
      cases rest.contains name <;> simp

theorem name?_foldl_pin (names : List String) (r : Register) (key : Key) :
    (names.foldl Register.pin r).name? key = r.name? key := by
  induction names generalizing r with
  | nil => rfl
  | cons first rest ih => rw [List.foldl_cons, ih, Register.name?_pin]

/-- A name at the end is found if there is none before. -/
theorem lookup_concat (names : List (SymbolId × String)) (id other : SymbolId) (name : String) :
    (names ++ [(id, name)]).lookup other =
      (names.lookup other).or (if other = id then some name else none) := by
  rw [List.lookup_append, List.lookup_cons, List.lookup_nil]
  by_cases h : other = id
  · rw [if_pos h, beq_iff_eq.mpr h]
  · rw [if_neg h, beq_false_of_ne h]

namespace Apart

variable {pinned : List String} {names names' : List (SymbolId × String)} {r r' : Register}

/-- Nothing has a name at first. -/
theorem start (pinned : List String) : Apart pinned [] (pinned.foldl Register.pin {}) := by
  have hnone : ∀ x, nameOf? [] (pinned.foldl Register.pin {}) x = none := by
    intro x
    cases x with
    | symbol id => rfl
    | minted handler => exact name?_foldl_pin ..
  refine ⟨fun name hname => ?_, fun h => ?_, fun h => ?_, fun h => ?_, fun h => ?_⟩
  · rw [isTaken_foldl_pin, List.contains_iff_mem.mpr hname, Bool.true_or]
  · rw [hnone] at h
    cases h
  · rw [hnone] at h
    cases h
  · rw [hnone] at h
    cases h
  · rw [name?_foldl_pin] at h
    cases h

/-- A free name for something without a name keeps the names apart. -/
theorem add {x : Named} {name : String} (h : Apart pinned names r)
    (hnew : nameOf? names r x = none) (hfree : r.isTaken name = false)
    (hnames : ∀ y, nameOf? names' r' y = if y = x then some name else nameOf? names r y)
    (htaken : ∀ other, r'.isTaken other = (other == name || r.isTaken other))
    (hparameters : ∀ id, r'.name? (.parameter id) = r.name? (.parameter id)) :
    Apart pinned names' r' := by
  -- The new name is that of `x` only, since the names of the others are in use.
  have hcases : ∀ {y other}, nameOf? names' r' y = some other →
      y = x ∧ other = name ∨ nameOf? names r y = some other ∧ other ≠ name := by
    intro y other hy
    rw [hnames] at hy
    split at hy
    · next heq => exact .inl ⟨heq, (Option.some.inj hy).symm⟩
    · refine .inr ⟨hy, fun heq => ?_⟩
      have htaken := h.taken hy
      rw [heq, hfree] at htaken
      cases htaken
  refine ⟨fun other hother => ?_, fun hy => ?_, fun hy => ?_, fun hy hz => ?_,
    fun {id other} hid => ?_⟩
  · rw [htaken, h.pinned_taken other hother, Bool.or_true]
  · rw [htaken]
    rcases hcases hy with ⟨-, rfl⟩ | ⟨hy, -⟩
    · rw [beq_self_eq_true, Bool.true_or]
    · rw [h.taken hy, Bool.or_true]
  · rcases hcases hy with ⟨-, rfl⟩ | ⟨hy, -⟩
    · intro hpinned
      have htaken := h.pinned_taken _ hpinned
      rw [hfree] at htaken
      cases htaken
    · exact h.notPinned hy
  · rcases hcases hy with ⟨rfl, rfl⟩ | ⟨hy, hne⟩
    · rcases hcases hz with ⟨rfl, -⟩ | ⟨-, hne⟩
      · rfl
      · exact absurd rfl hne
    · rcases hcases hz with ⟨-, rfl⟩ | ⟨hz, -⟩
      · exact absurd rfl hne
      · exact h.injective hy hz
  · rw [hparameters] at hid
    have hold : nameOf? names r (.symbol id) = some other := h.parameters hid
    have hne : Named.symbol id ≠ x := by
      intro heq
      rw [heq, hnew] at hold
      cases hold
    exact (hnames (.symbol id)).trans ((if_neg hne).trans hold)

/-- A symbol that gets a free name. -/
theorem addSymbol {id : SymbolId} {name : String} (h : Apart pinned names r)
    (hnew : names.lookup id = none) (hfree : r.isTaken name = false) :
    Apart pinned (names ++ [(id, name)]) (r.pin name) := by
  refine h.add (x := .symbol id) hnew hfree (fun y => ?_) (Register.isTaken_pin r name)
    fun other => rfl
  cases y with
  | minted handler => rw [if_neg nofun]; rfl
  | symbol other =>
      rw [nameOf?, lookup_concat]
      by_cases hid : other = id
      · subst hid
        simp [hnew]
      · rw [if_neg hid, Option.or_none, if_neg fun heq => hid (Named.symbol.inj heq)]
        rfl

/-- A value that gets a free name. -/
theorem addMinted {handler : NodeId} {name : String} (h : Apart pinned names r)
    (hnew : r.name? (.minted handler) = none) (hfree : r.isTaken name = false) :
    Apart pinned names ((r.pin name).insert (.minted handler) name) := by
  refine h.add (x := .minted handler) hnew hfree (fun y => ?_) (Register.isTaken_pin r name)
    fun id => Register.name?_insert (r.pin name) (.minted handler) (.parameter id) name
  cases y with
  | symbol id => rw [if_neg nofun]; rfl
  | minted other =>
      rw [nameOf?, Register.name?_insert, Register.name?_pin]
      by_cases hhandler : other = handler
      · subst hhandler
        simp
      · rw [if_neg fun heq => hhandler (Key.minted.inj heq),
          if_neg fun heq => hhandler (Named.minted.inj heq)]
        rfl

/-- A parameter is called as its symbol is. -/
theorem addParameter {id : SymbolId} {name : String} (h : Apart pinned names r)
    (hname : names.lookup id = some name) :
    Apart pinned names (r.insert (.parameter id) name) := by
  have hnameOf : ∀ x, nameOf? names (r.insert (.parameter id) name) x = nameOf? names r x := by
    intro x
    cases x with
    | symbol other => rfl
    | minted handler => exact (Register.name?_insert ..).trans (if_neg nofun)
  refine ⟨h.pinned_taken, fun hx => ?_, fun hx => ?_, fun hx hy => ?_,
    fun {other text} hother => ?_⟩
  · rw [hnameOf] at hx
    exact h.taken hx
  · rw [hnameOf] at hx
    exact h.notPinned hx
  · rw [hnameOf] at hx hy
    exact h.injective hx hy
  · rw [Register.name?_insert] at hother
    split at hother
    · next heq =>
      cases heq
      exact hname.trans hother
    · exact h.parameters hother

end Apart

/-! ### The symbols -/

theorem of_reserve? {r r' : Register} {base name : String} (h : r.reserve? base = some (name, r')) :
    r.isTaken name = false ∧ r' = r.pin name := by
  obtain ⟨hfree, rfl⟩ := Register.reserve?_eq_some_iff.mp h
  exact ⟨Register.isTaken_of_freeName? hfree, rfl⟩

/-- Choosing the name of a symbol gives it a free name. -/
theorem of_chooseSymbol? {choice choice' : Choice} {id : SymbolId}
    (h : chooseSymbol? b choice id = some choice') :
    ∃ name, choice.register.isTaken name = false ∧
      choice'.register = choice.register.pin name ∧
      choice'.names = choice.names ++ [(id, name)] := by
  obtain ⟨symbol, -, h⟩ := Option.bind_eq_some_iff.mp h
  obtain ⟨⟨name, register⟩, hreserve, h⟩ := Option.bind_eq_some_iff.mp h
  obtain ⟨hfree, rfl⟩ := of_reserve? hreserve
  cases h
  exact ⟨name, hfree, rfl, rfl⟩

/-- One symbol after another gets a name, and the names stay apart. -/
theorem of_foldlM_chooseSymbol? {pinned : List String} {ids : List SymbolId}
    {choice choice' : Choice} (h : ids.foldlM (chooseSymbol? b) choice = some choice')
    (hids : ids.Nodup) (hnew : ∀ id ∈ ids, choice.names.lookup id = none)
    (hapart : Apart pinned choice.names choice.register) :
    Apart pinned choice'.names choice'.register ∧
      (∀ id, (choice'.names.lookup id).isSome ↔ (choice.names.lookup id).isSome ∨ id ∈ ids) ∧
      ∀ handler, choice'.register.name? (.minted handler) =
        choice.register.name? (.minted handler) := by
  induction ids generalizing choice with
  | nil =>
      cases h
      exact ⟨hapart, fun id => by simp, fun _ => rfl⟩
  | cons id rest ih =>
      rw [List.foldlM_cons] at h
      obtain ⟨middle, hstep, hrest⟩ := Option.bind_eq_some_iff.mp h
      obtain ⟨name, hfree, hregister, hnames⟩ := of_chooseSymbol? hstep
      obtain ⟨hid, hrestNodup⟩ := List.nodup_cons.mp hids
      have hmiddle : Apart pinned middle.names middle.register := by
        rw [hnames, hregister]
        exact hapart.addSymbol (hnew id List.mem_cons_self) hfree
      have hlookup : ∀ other, (middle.names.lookup other).isSome ↔
          (choice.names.lookup other).isSome ∨ other = id := by
        intro other
        rw [hnames, lookup_concat, Option.isSome_or]
        by_cases hother : other = id <;> simp [hother]
      have hrestNew : ∀ other ∈ rest, middle.names.lookup other = none := by
        intro other hother
        rw [← Option.not_isSome_iff_eq_none, hlookup,
          hnew other (List.mem_cons_of_mem _ hother)]
        rintro (hsome | rfl)
        · cases hsome
        · exact hid hother
      obtain ⟨hapart', hsome, hminted⟩ := ih hrest hrestNodup hrestNew hmiddle
      refine ⟨hapart', fun other => ?_, fun handler => ?_⟩
      · rw [hsome, hlookup, List.mem_cons, or_assoc]
      · rw [hminted, hregister, Register.name?_pin]

theorem nodup_inTextOrder {ids : List SymbolId} (h : ids.Nodup) :
    (inTextOrder source b ids).Nodup :=
  (Text.stableSort_perm _ ids).nodup_iff.mpr h

/-- The symbols of the owners have names, and no others. -/
theorem of_chooseSymbols? {outer : Node} {owners : List NodeId} {t : Tree} {choice : Choice}
    (h : chooseSymbols? source b outer owners t = some choice) :
    Apart (pinnedNames source b outer owners) choice.names choice.register ∧
      (∀ id, (choice.names.lookup id).isSome ↔
        id ∈ b.declaredBetween source outer.pos outer.stop ∧ belongsTo source b owners id = true) ∧
      ∀ handler, choice.register.name? (.minted handler) = none := by
  have hnodup : ((b.declaredBetween source outer.pos outer.stop).filter
      (belongsTo source b owners)).Nodup :=
    (List.nodup_range.sublist List.filter_sublist).sublist List.filter_sublist
  obtain ⟨hapart, hsome, hminted⟩ := of_foldlM_chooseSymbol? h (nodup_inTextOrder hnodup)
    (fun _ _ => rfl) (.start _)
  refine ⟨hapart, fun id => ?_, fun handler => ?_⟩
  · rw [hsome, inTextOrder, (Text.stableSort_perm _ _).mem_iff, List.mem_filter]
    simp
  · rw [hminted, name?_foldl_pin]
    rfl

/-! ### The handlers -/

/-- Entering a handler names what it reads, if that has no name yet. -/
theorem of_enterSite? {o : Oracle} {names : List (SymbolId × String)} {r r' : Register}
    {site : Site} (h : enterSite? source b o names r site = some r') :
    (r' = r ∧ ∀ handler, siteKey? source b site = some (.minted handler) →
      (r.name? (.minted handler)).isSome) ∨
    (∃ id name, siteKey? source b site = some (.parameter id) ∧ names.lookup id = some name ∧
      r' = r.insert (.parameter id) name) ∨
    ∃ handler name, siteKey? source b site = some (.minted handler) ∧
      r.name? (.minted handler) = none ∧ r.isTaken name = false ∧
      r' = (r.pin name).insert (.minted handler) name := by
  unfold enterSite? at h
  split at h
  · next id hkey =>
    split at h
    · next name hname => exact .inr (.inl ⟨id, name, hkey, hname, (Option.some.inj h).symm⟩)
    · exact .inl ⟨(Option.some.inj h).symm, fun _ hminted => by cases hkey.symm.trans hminted⟩
  · next handler hkey =>
    split at h
    · next hentered =>
      refine .inl ⟨(Option.some.inj h).symm, fun other hminted => ?_⟩
      cases hkey.symm.trans hminted
      rwa [Register.name?, Option.isSome_map]
    · next hentered =>
      obtain ⟨⟨name, register⟩, hreserve, h⟩ := Option.bind_eq_some_iff.mp h
      obtain ⟨hfree, rfl⟩ := of_reserve? hreserve
      refine .inr (.inr ⟨handler, name, hkey, ?_, hfree, (Option.some.inj h).symm⟩)
      rw [Register.name?, Option.not_isSome_iff_eq_none.mp hentered, Option.map_none]
  · next hparameter hminted =>
    exact .inl ⟨(Option.some.inj h).symm, fun handler hkey => absurd hkey (hminted handler)⟩

/-- Entering one handler keeps the names apart. -/
theorem Apart.enterSite? {pinned : List String} {o : Oracle} {names : List (SymbolId × String)}
    {r r' : Register} {site : Site} (h : Apart pinned names r)
    (henter : enterSite? source b o names r site = some r') :
    Apart pinned names r' ∧ ∀ handler, (r'.name? (.minted handler)).isSome ↔
      (r.name? (.minted handler)).isSome ∨ siteKey? source b site = some (.minted handler) := by
  rcases of_enterSite? henter with
    ⟨rfl, hentered⟩ | ⟨id, name, hkey, hname, rfl⟩ | ⟨handler, name, hkey, hnew, hfree, rfl⟩
  · exact ⟨h, fun handler => ⟨.inl, fun hor => hor.elim (fun hsome => hsome) (hentered handler)⟩⟩
  · refine ⟨h.addParameter hname, fun handler => ?_⟩
    rw [Register.name?_insert, if_neg nofun, hkey]
    simp
  · refine ⟨h.addMinted hnew hfree, fun other => ?_⟩
    rw [Register.name?_insert, Register.name?_pin, hkey]
    by_cases hother : other = handler
    · simp [hother]
    · have hother' : handler ≠ other := fun heq => hother heq.symm
      simp [hother, hother']

/-- One handler after another is entered, and the names stay apart. -/
theorem Apart.foldlM_enterSite? {pinned : List String} {o : Oracle}
    {names : List (SymbolId × String)} {r r' : Register} {sites : List Site}
    (h : Apart pinned names r)
    (henter : sites.foldlM (Naming.enterSite? source b o names) r = some r') :
    Apart pinned names r' ∧ ∀ handler, (r'.name? (.minted handler)).isSome ↔
      (r.name? (.minted handler)).isSome ∨
        ∃ site ∈ sites, siteKey? source b site = some (.minted handler) := by
  induction sites generalizing r with
  | nil =>
      cases henter
      exact ⟨h, fun handler => by simp⟩
  | cons site rest ih =>
      rw [List.foldlM_cons] at henter
      obtain ⟨middle, hstep, hrest⟩ := Option.bind_eq_some_iff.mp henter
      obtain ⟨hmiddle, hsite⟩ := h.enterSite? hstep
      obtain ⟨hapart, hsites⟩ := ih hmiddle hrest
      refine ⟨hapart, fun handler => ?_⟩
      rw [hsites, hsite, or_assoc]
      simp only [List.mem_cons, exists_eq_or_imp]

/-! ### The result -/

/-- The names that `choose?` chooses. Every symbol that is declared in the function and belongs to
it or to a handler that is written into it has a name, and no other symbol; so has every value
without a binding that a handler reads. The names are pairwise distinct, and none is pinned. The
parameters of handlers are entered by the names of their symbols. -/
theorem choose?_distinct {o : Oracle} {function : NodeId} {chains : List NodeId} {t tree : Tree}
    {register : Register} (h : choose? source b o function chains t = some (register, tree)) :
    ∃ outer sites owners choice, source.node? function = some outer ∧
      sites = sitesInOrder source o outer chains t ∧ owners = ownersOf function sites ∧
      chooseSymbols? source b outer owners t = some choice ∧ choice.tree = tree ∧
      (∀ id, (choice.names.lookup id).isSome ↔
        id ∈ b.declaredBetween source outer.pos outer.stop ∧ belongsTo source b owners id = true) ∧
      (∀ handler, (register.name? (.minted handler)).isSome ↔
        ∃ site ∈ sites, siteKey? source b site = some (.minted handler)) ∧
      (∀ x y name, nameOf? choice.names register x = some name →
        nameOf? choice.names register y = some name → x = y) ∧
      (∀ x name, nameOf? choice.names register x = some name →
        ¬ Pinned source b outer owners name) ∧
      ∀ id name, register.name? (.parameter id) = some name →
        choice.names.lookup id = some name := by
  obtain ⟨outer, houter, h⟩ := Option.bind_eq_some_iff.mp h
  obtain ⟨choice, hchoice, h⟩ := Option.bind_eq_some_iff.mp h
  obtain ⟨entered, henter, h⟩ := Option.bind_eq_some_iff.mp h
  cases h
  obtain ⟨hsymbols, hsome, hnone⟩ := of_chooseSymbols? hchoice
  obtain ⟨hapart, hminted⟩ := hsymbols.foldlM_enterSite? henter
  refine ⟨outer, _, _, choice, houter, rfl, rfl, hchoice, rfl, hsome, fun handler => ?_,
    fun x y name hx hy => hapart.injective hx hy, fun x name hx hpinned => ?_,
    fun id name hid => hapart.parameters hid⟩
  · rw [hminted, hnone]
    simp
  · exact hapart.notPinned hx (mem_pinnedNames.mpr hpinned)

/-! ### A handler whose parameter is renamed -/

namespace Sample

/-- `x => p.then(x => x).catch(h)` -/
def tree : Tree where
  nodes := #[⟨.identifier "x", {}, 0, 1, some 1, none⟩,
    ⟨.parameter { name := some 0 }, {}, 0, 1, some 14, none⟩,
    ⟨.identifier "p", {}, 5, 6, some 4, none⟩, ⟨.identifier "then", {}, 7, 11, some 4, none⟩,
    ⟨.access .property (some 2) (some 3) false, {}, 5, 11, some 9, none⟩,
    ⟨.identifier "x", {}, 12, 13, some 6, none⟩,
    ⟨.parameter { name := some 5 }, {}, 12, 13, some 8, none⟩,
    ⟨.identifier "x", {}, 17, 18, some 8, none⟩,
    ⟨.function .arrow { parameters := { nodes := [6] }, body := some 7 }, {}, 12, 18, some 9, none⟩,
    ⟨.call .call (some 4) none (some { nodes := [8] }), {}, 5, 19, some 11, none⟩,
    ⟨.identifier "catch", {}, 20, 25, some 11, none⟩,
    ⟨.access .property (some 9) (some 10) false, {}, 5, 25, some 13, none⟩,
    ⟨.identifier "h", {}, 26, 27, some 13, none⟩,
    ⟨.call .call (some 11) none (some { nodes := [12] }), {}, 5, 28, some 14, none⟩,
    ⟨.function .arrow { parameters := { nodes := [1] }, body := some 13 }, {}, 0, 28, none, none⟩]

def table : Table where
  symbols := #[⟨.parameter, "x", 0, 1, 1⟩, ⟨.parameter, "x", 5, 6, 2⟩]
  nodeSymbols := #[some 0, none, none, none, none, some 1, none, some 1]
  references := #[[], [7]]
  unresolved := [(2, "p"), (12, "h")]

def oracle : Oracle := ⟨[2, 9, 13].contains, fun id => table.symbolAt? id, fun _ => none⟩

/-- The parameter of the handler is renamed, and the reason that `h` gets has a name. -/
def register : Register :=
  ⟨[(.parameter 1, { name := "x_1" }), (.minted 12, { name := "e" })], ["e", "x_1", "x", "h", "p"]⟩

end Sample

/-- The names of `x => p.then(x => x).catch(h)` are distinct, and neither `p` nor `h`. -/
theorem choose?_distinct_sample : ∃ tree owners names,
    choose? Sample.tree Sample.table Sample.oracle 14 [13] Sample.tree =
      some (Sample.register, tree) ∧
    (∀ x y name, nameOf? names Sample.register x = some name →
      nameOf? names Sample.register y = some name → x = y) ∧
    ∀ x name, nameOf? names Sample.register x = some name →
      ∃ outer, Sample.tree.node? 14 = some outer ∧
        ¬ Pinned Sample.tree Sample.table outer owners name := by
  have hchoose : (choose? Sample.tree Sample.table Sample.oracle 14 [13] Sample.tree).map Prod.fst =
      some Sample.register := by decide +kernel
  obtain ⟨⟨register, tree⟩, h, rfl⟩ := Option.map_eq_some_iff.mp hchoose
  obtain ⟨outer, sites, owners, choice, houter, -, -, -, -, -, -, hinjective, hpinned, -⟩ :=
    choose?_distinct h
  exact ⟨tree, owners, choice.names, h, hinjective,
    fun x name hx => ⟨outer, houter, hpinned x name hx⟩⟩

end Unchain.Naming
