import Unchain.Proofs.Chain.Marked
import Unchain.Proofs.Chain.Outline

/-!
# Handlers that are converted along with a chain

`sitesFrom` lists the handlers of the first links of a chain, with those of the
chains in them. A chain that is entered further in, or followed less far, has
no other handlers (`sitesFrom_callee_subset`, `sitesFrom_mono`).

`Offers` says that a tree has no more handlers than another one, and that the
functions among them read the same parameters (`Offers.sitesUpTo_subset`,
`Offers.siteKey?_eq`). A tree that has evolved offers what it offered before
(`offers_of_evolves`).
-/

namespace Unchain.Naming

open Binding (Table)
open Chain (CallsMethod Handler Link handlerChains handlerOf isChain linkOf spineUpTo)
open Promise (Oracle)
open Syntax (Data NodeId Tree)
open Syntax.Tree (Evolves holds_none holds_some lt_size_of_data?)

/-- The handlers of the first `limit` links of a chain, with those of the chains in handlers down
to a depth of nesting. -/
def sitesFrom (t : Tree) (o : Oracle) (depth limit : Nat) (e : Option NodeId) : List Site :=
  (spineUpTo t o limit e).flatMap fun (_, link) =>
    (sitesOfLink t o link).flatMap fun site =>
      site :: (chainsOfHandler t o site.handler).flatMap (sitesUpTo t o depth)

variable {t t' : Tree} {o : Oracle} {b : Table} {depth limit : Nat} {e : Option NodeId}
  {site : Site} {link : Link}

theorem mem_sitesFrom : site ∈ sitesFrom t o depth limit e ↔
    ∃ id link, (id, link) ∈ spineUpTo t o limit e ∧ ∃ outer ∈ sitesOfLink t o link,
      site = outer ∨ ∃ chain ∈ chainsOfHandler t o outer.handler,
        site ∈ sitesUpTo t o depth chain := by
  simp only [sitesFrom, List.mem_flatMap, List.mem_cons, Prod.exists]

theorem mem_sitesOfLink : site ∈ sitesOfLink t o link ↔
    (site = ⟨handlerOf t o link.handlers.1, .fulfillment⟩ ∨
      site = ⟨handlerOf t o link.handlers.2, .rejection⟩) ∧ site.handler ≠ .absent := by
  have habsent (handler : Handler) : (!handler.isAbsent) = true ↔ handler ≠ .absent := by
    cases handler <;> simp [Handler.isAbsent]
  simp only [sitesOfLink, List.mem_filter, List.mem_cons, List.not_mem_nil, or_false, habsent]

theorem handlerOf_none : handlerOf t o none = .absent := by
  simp [handlerOf]

theorem function_of_mem_sitesOfLink {function : NodeId} (hsite : site ∈ sitesOfLink t o link)
    (h : site.handler = .literal function) :
    ∃ k f, t.data? function = some (.function k f) ∧ (k = .arrow ∨ k = .expression) := by
  rcases (mem_sitesOfLink.mp hsite).1 with rfl | rfl <;> exact Chain.function_of_literal h

theorem lt_size_of_mem_sitesOfLink {function : NodeId} (hsite : site ∈ sitesOfLink t o link)
    (h : site.handler = .literal function) : function < t.size := by
  obtain ⟨_, _, hdata, -⟩ := function_of_mem_sitesOfLink hsite h
  exact lt_size_of_data? hdata

/-- A link that has no handlers. -/
theorem sitesOfLink_eq_nil (h : link.handlers = (none, none)) : sitesOfLink t o link = [] := by
  refine List.eq_nil_iff_forall_not_mem.mpr fun site hsite => ?_
  obtain ⟨hwhich, hpresent⟩ := mem_sitesOfLink.mp hsite
  rw [h] at hwhich
  rcases hwhich with rfl | rfl
  · exact hpresent (handlerOf_none (t := t) (o := o))
  · exact hpresent (handlerOf_none (t := t) (o := o))

/-! ### Parts of a chain -/

theorem spineUpTo_subset_succ (limit : Nat) (e : Option NodeId) :
    spineUpTo t o limit e ⊆ spineUpTo t o (limit + 1) e := by
  induction limit generalizing e with
  | zero => exact List.nil_subset _
  | succ limit ih =>
    rw [spineUpTo, spineUpTo]
    refine List.cons_subset_cons _ ?_
    cases (linkOf t o (t.skipParentheses e)).receiver? with
    | none => exact List.Subset.refl _
    | some part => exact ih part

theorem spineUpTo_mono {limit' : Nat} (h : limit ≤ limit') (e : Option NodeId) :
    spineUpTo t o limit e ⊆ spineUpTo t o limit' e := by
  induction h with
  | refl => exact List.Subset.refl _
  | step _ ih => exact List.Subset.trans ih (spineUpTo_subset_succ _ e)

theorem sitesFrom_subset_of_spine {limit' : Nat} {e' : Option NodeId}
    (h : spineUpTo t o limit e ⊆ spineUpTo t o limit' e') :
    sitesFrom t o depth limit e ⊆ sitesFrom t o depth limit' e' := by
  intro site hsite
  obtain ⟨id, link, hlink, hrest⟩ := mem_sitesFrom.mp hsite
  exact mem_sitesFrom.mpr ⟨id, link, h hlink, hrest⟩

theorem sitesFrom_mono {limit' : Nat} (h : limit ≤ limit') (e : Option NodeId) :
    sitesFrom t o depth limit e ⊆ sitesFrom t o depth limit' e :=
  sitesFrom_subset_of_spine (spineUpTo_mono h e)

/-- The chain that goes on from a link has no other handlers. -/
theorem sitesFrom_receiver_subset {part : Option NodeId}
    (h : (linkOf t o (t.skipParentheses e)).receiver? = some part) :
    sitesFrom t o depth limit part ⊆ sitesFrom t o depth (limit + 1) e := by
  refine sitesFrom_subset_of_spine ?_
  rw [spineUpTo, h]
  exact List.subset_cons_self _ _

/-- A link is entered through its callee, which has no handlers of its own. -/
theorem sitesFrom_callee_subset {id callee receiver : NodeId} {arguments : List NodeId}
    (hid : t.skipParentheses e = some id) (hcalls : CallsMethod t id callee receiver arguments)
    (hreceiver : (linkOf t o (some id)).receiver? = some (some receiver)) :
    sitesFrom t o depth limit (some callee) ⊆ sitesFrom t o depth (limit + 1) e := by
  intro site hsite
  cases limit with
  | zero => cases hsite
  | succ limit =>
    obtain ⟨id', link, hlink, outer, houter, hwhich⟩ := mem_sitesFrom.mp hsite
    have hbare (h : (linkOf t o (some callee)).handlers = (none, none))
        (heq : (id', link) = (some callee, linkOf t o (some callee))) : False := by
      obtain ⟨-, rfl⟩ := Prod.mk.inj heq
      rw [sitesOfLink_eq_nil h] at houter
      cases houter
    rw [spineUpTo, hcalls.skip] at hlink
    cases hpromise : Chain.isPromise t o (some callee) with
    | false =>
      have hmember := hcalls.linkOf_callee hpromise
      rcases List.mem_cons.mp hlink with heq | hlink
      · exact (hbare (by rw [hmember]; rfl) heq).elim
      · rw [hmember] at hlink
        refine sitesFrom_receiver_subset (hid ▸ hreceiver) (sitesFrom_mono (Nat.le_succ limit) _ ?_)
        exact mem_sitesFrom.mpr ⟨id', link, hlink, outer, houter, hwhich⟩
    | true =>
      obtain ⟨_, _, _, _, -, -, -, hcallee⟩ := hcalls
      have hlinkOf : linkOf t o (some callee) = .promise := by
        simp [linkOf, Tree.partData?, hcallee, hpromise]
      rw [hlinkOf] at hlink
      exact (hbare (by rw [hlinkOf]; rfl) (by rw [hlinkOf]; exact List.mem_singleton.mp hlink)).elim

/-! ### Chains in functions -/

/-- The chains of a function: its body, or what its statements return or compute. -/
theorem mem_handlerChains {function chain : NodeId} : chain ∈ handlerChains t o function ↔
    isChain t o (some chain) = true ∧ ∃ body, Chain.bodyOf? t function = some body ∧
      (t.statements? body = none ∧ body = chain ∨
        ∃ list, t.statements? body = some list ∧ ∃ statement ∈ list.nodes,
          t.data? statement = some (.leave .returns (some chain)) ∨
            t.data? statement = some (.expressionStatement .statement (some chain))) := by
  have hchain (e : Option NodeId) : (if isChain t o e then e else none) = some chain ↔
      isChain t o (some chain) = true ∧ e = some chain := by
    rw [Option.ite_none_right_eq_some]
    exact ⟨fun ⟨h, he⟩ => ⟨he ▸ h, he⟩, fun ⟨h, he⟩ => ⟨he ▸ h, he⟩⟩
  unfold handlerChains
  dsimp only
  cases hbody : Chain.bodyOf? t function with
  | none => simp
  | some body =>
    cases hlist : t.statements? body with
    | none => simp [hchain, hlist]
    | some list =>
      simp only [List.mem_filterMap, Option.some.injEq, exists_eq_left', hlist, reduceCtorEq,
        false_and, false_or]
      constructor
      · rintro ⟨statement, hmem, h⟩
        split at h
        · next e hdata =>
          obtain ⟨hchain, rfl⟩ := (hchain e).mp h
          exact ⟨hchain, statement, hmem, .inl hdata⟩
        · next e hdata =>
          obtain ⟨hchain, rfl⟩ := (hchain e).mp h
          exact ⟨hchain, statement, hmem, .inr hdata⟩
        · cases h
      · rintro ⟨h, statement, hmem, hdata | hdata⟩
        · exact ⟨statement, hmem, by rw [hdata]; exact (hchain _).mpr ⟨h, rfl⟩⟩
        · exact ⟨statement, hmem, by rw [hdata]; exact (hchain _).mpr ⟨h, rfl⟩⟩

/-! ### Nodes of a closed tree -/

section

variable (ht : t.Closed)
include ht

/-- The handlers of a link are nodes of the tree. -/
theorem holds_handlers {id : Option NodeId} :
    t.Holds (linkOf t o id).handlers.1 ∧ t.Holds (linkOf t o id).handlers.2 := by
  cases hlink : linkOf t o id with
  | thenCall callee receiver onFulfilled onRejected => exact (Chain.holds_of_thenCall ht hlink).2
  | catchCall callee receiver onRejected =>
    exact ⟨holds_none t, (Chain.holds_of_catchCall ht hlink).2⟩
  | _ => exact ⟨holds_none t, holds_none t⟩

/-- The body of a function is a node of the tree. -/
theorem lt_size_of_bodyOf? {function body : NodeId} (h : Chain.bodyOf? t function = some body) :
    body < t.size := by
  obtain ⟨k, f, hdata, hbody⟩ := Chain.bodyOf?_eq_some_iff.mp h
  exact ht.child_lt hdata (by simp [Data.children, hbody])

/-- The chains in a function are nodes of the tree. -/
theorem lt_size_of_mem_handlerChains {function chain : NodeId}
    (h : chain ∈ handlerChains t o function) : chain < t.size := by
  obtain ⟨-, body, hbody, ⟨-, rfl⟩ | ⟨list, -, statement, -, hdata⟩⟩ := mem_handlerChains.mp h
  · exact lt_size_of_bodyOf? ht hbody
  · rcases hdata with hdata | hdata <;> exact ht.child_lt hdata (by simp [Data.children])

end

/-! ### What stands below a chain -/

/-- The handlers of a link stand below it. -/
theorem below_of_handlers {id handler : NodeId}
    (h : (linkOf t o (some id)).handlers.1 = some handler ∨
      (linkOf t o (some id)).handlers.2 = some handler) : t.Below id handler := by
  have hargument {callee receiver : NodeId} {arguments : List NodeId}
      (hcalls : CallsMethod t id callee receiver arguments) (hmem : handler ∈ arguments) :
      t.Below id handler := by
    obtain ⟨outer, types, list, name, hid, rfl, -⟩ := hcalls
    exact .of_data? hid (List.mem_append_right _ hmem)
  cases hlink : linkOf t o (some id) with
  | thenCall callee receiver onFulfilled onRejected =>
    obtain ⟨arguments, hcalls, hfulfilled, hrejected⟩ := Chain.callsMethod_of_thenCall hlink
    rw [hlink] at h
    exact h.elim (fun h => hargument hcalls (hfulfilled handler h))
      fun h => hargument hcalls (hrejected handler h)
  | catchCall callee receiver onRejected =>
    obtain ⟨arguments, hcalls, hrejected⟩ := Chain.callsMethod_of_catchCall hlink
    rw [hlink] at h
    rcases h with h | h
    · cases h
    · exact hargument hcalls (Option.some.inj h ▸ hrejected)
  | _ => rw [hlink] at h; rcases h with h | h <;> cases h

/-- A function that is a handler of a link stands below it. -/
theorem below_of_mem_sitesOfLink {id function : NodeId}
    (hsite : site ∈ sitesOfLink t o (linkOf t o (some id)))
    (h : site.handler = .literal function) : t.Below id function := by
  have hbelow {e : Option NodeId} (hliteral : handlerOf t o e = .literal function)
      (he : ∀ handler, e = some handler → t.Below id handler) : t.Below id function := by
    have hskip : t.skipParentheses e = some function :=
      Chain.skip_of_handlerOf (by rw [hliteral]; rfl)
    cases e with
    | none => rw [Tree.skipParentheses_none] at hskip; cases hskip
    | some handler => exact (he handler rfl).trans (Chain.continues_skipParentheses hskip).is_below
  rcases (mem_sitesOfLink.mp hsite).1 with rfl | rfl
  · exact hbelow h fun handler he => below_of_handlers (.inl he)
  · exact hbelow h fun handler he => below_of_handlers (.inr he)

/-- The chains in a function stand below it. -/
theorem below_of_mem_handlerChains {function chain : NodeId}
    (h : chain ∈ handlerChains t o function) : t.Below function chain := by
  have hbody {body : NodeId} (h : Chain.bodyOf? t function = some body) :
      t.Below function body := .child .refl (Chain.mem_children_of_bodyOf? h)
  obtain ⟨-, body, hsome, ⟨-, rfl⟩ | ⟨list, hlist, statement, hmem, hdata⟩⟩ :=
    mem_handlerChains.mp h
  · exact hbody hsome
  · refine (hbody hsome).trans (.of_child ((Tree.statements?_sublist hlist).subset hmem) ?_)
    rcases hdata with hdata | hdata <;> exact .of_data? hdata (by simp [Data.children])

/-- The functions that are converted along with a chain stand below it. -/
theorem below_of_mem_sitesUpTo {chain function : NodeId} (hsite : site ∈ sitesUpTo t o depth chain)
    (h : site.handler = .literal function) : t.Below chain function ∧
      ∃ k f, t.data? function = some (.function k f) ∧ (k = .arrow ∨ k = .expression) := by
  induction depth generalizing chain with
  | zero => cases hsite
  | succ depth ih =>
    obtain ⟨id, link, hlink, outer, houter, hwhich⟩ := mem_sitesFrom.mp hsite
    obtain rfl := Chain.link_of_mem_spineUpTo hlink
    cases id with
    | none =>
      rw [sitesOfLink_eq_nil] at houter
      · cases houter
      · cases hlinkOf : linkOf t o none <;> first | rfl | cases hlinkOf
    | some id =>
      obtain ⟨first, hfirst, hcontinues⟩ := Chain.continues_of_mem_spineUpTo hlink
      obtain rfl := Option.some.inj hfirst
      rcases hwhich with rfl | ⟨inner, hinner, hsite⟩
      · exact ⟨hcontinues.is_below.trans (below_of_mem_sitesOfLink houter h),
          function_of_mem_sitesOfLink houter h⟩
      · obtain ⟨hbelow, hdata⟩ := ih hsite
        cases hhandler : outer.handler with
        | literal around =>
          rw [hhandler] at hinner
          exact ⟨hcontinues.is_below.trans ((below_of_mem_sitesOfLink houter hhandler).trans
            ((below_of_mem_handlerChains hinner).trans hbelow)), hdata⟩
        | _ => rw [hhandler] at hinner; cases hinner

/-! ### Trees that offer no more -/

/-- Every handler of a chain in `t'` is one in `t`, and reads the same binding. -/
structure Offers (o : Oracle) (b : Table) (t t' : Tree) : Prop where
  spine : ∀ {limit e id link}, t.Holds e → (id, link) ∈ spineUpTo t' o limit e →
    link.handlers = (none, none) ∨ (id, link) ∈ spineUpTo t o limit e
  handler : ∀ {e}, t.Holds e → handlerOf t' o e = handlerOf t o e
  chains : ∀ {function}, function < t.size →
    handlerChains t' o function ⊆ handlerChains t o function
  parameter : ∀ {function}, function < t.size →
    plainParameter? t' b function = plainParameter? t b function

namespace Offers

variable (h : Offers o b t t')
include h

theorem siteKey?_eq (hsite : ∀ function, site.handler = .literal function → function < t.size) :
    siteKey? t' b site = siteKey? t b site := by
  obtain ⟨handler, role⟩ := site
  cases handler with
  | literal function =>
    have hparameter := h.parameter (hsite function rfl)
    cases role <;> simp only [siteKey?, valueKey?, reasonKey?, hparameter]
  | _ => rfl

theorem sitesOfLink_eq (ht : t.Closed) {limit : Nat} {id : Option NodeId}
    (hlink : (id, link) ∈ spineUpTo t o limit e) :
    sitesOfLink t' o link = sitesOfLink t o link := by
  obtain rfl := Chain.link_of_mem_spineUpTo hlink
  obtain ⟨hfulfilled, hrejected⟩ : t.Holds (linkOf t o id).handlers.1 ∧
      t.Holds (linkOf t o id).handlers.2 := holds_handlers ht
  simp only [sitesOfLink, h.handler hfulfilled, h.handler hrejected]

theorem chainsOfHandler_subset {handler : Handler}
    (hhandler : ∀ function, handler = .literal function → function < t.size) :
    chainsOfHandler t' o handler ⊆ chainsOfHandler t o handler := by
  cases handler with
  | literal function => exact h.chains (hhandler function rfl)
  | _ => exact List.Subset.refl _

/-- The links of a chain have no other handlers, if the chains in them have no others. -/
theorem sitesFrom_subset_of_chains (ht : t.Closed) (he : t.Holds e)
    (hchains : ∀ chain < t.size, sitesUpTo t' o depth chain ⊆ sitesUpTo t o depth chain) :
    sitesFrom t' o depth limit e ⊆ sitesFrom t o depth limit e := by
  intro site hsite
  obtain ⟨id, link, hlink, outer, houter, hwhich⟩ := mem_sitesFrom.mp hsite
  rcases h.spine he hlink with hbare | hlink
  · rw [sitesOfLink_eq_nil hbare] at houter
    cases houter
  rw [h.sitesOfLink_eq ht hlink] at houter
  refine mem_sitesFrom.mpr ⟨id, link, hlink, outer, houter, hwhich.imp_right ?_⟩
  rintro ⟨chain, hchain, hsite⟩
  obtain rfl := Chain.link_of_mem_spineUpTo hlink
  have hchain := h.chainsOfHandler_subset
    (fun function hfunction => lt_size_of_mem_sitesOfLink houter hfunction) hchain
  refine ⟨chain, hchain, hchains chain ?_ hsite⟩
  cases hhandler : outer.handler with
  | literal function =>
    rw [hhandler] at hchain
    exact lt_size_of_mem_handlerChains ht hchain
  | _ =>
    rw [hhandler] at hchain
    cases hchain

theorem sitesUpTo_subset (ht : t.Closed) (depth : Nat) {chain : NodeId} (hchain : chain < t.size) :
    sitesUpTo t' o depth chain ⊆ sitesUpTo t o depth chain := by
  induction depth generalizing chain with
  | zero => exact List.Subset.refl _
  | succ depth ih =>
    exact h.sitesFrom_subset_of_chains ht (holds_some.mpr hchain) fun _ => ih

end Offers

/-- A return that came to await what it returned returns no chain any more. -/
theorem data?_of_returns_chain {u u' : Tree} (h : Evolves t u) (h' : Evolves u u')
    {statement chain : NodeId} (hstatement : statement < t.size)
    (hchain : isChain u' o (some chain) = true)
    (hdata : u.data? statement = some (.leave .returns (some chain))) :
    t.data? statement = some (.leave .returns (some chain)) := by
  rcases h.data?_cases hstatement with hsame | ⟨e, e', hbefore, -⟩
  · exact hsame.symm.trans hdata
  · obtain ⟨e'', hafter, hawaits⟩ := h.returns hbefore
    obtain rfl : chain = e'' := by simpa using hdata.symm.trans hafter
    cases hawaits with
    | refl => exact hbefore
    | step hawait _ =>
      rw [Chain.isChain_await o (h'.data? hawait nofun)] at hchain
      cases hchain

/-- A tree that has evolved offers what it offered before, apart from what is awaited now. -/
theorem offers_of_evolves (b : Table) (h : Evolves t t') (ht : t.Closed) : Offers o b t t' where
  spine he hlink := .inr (Chain.spineUpTo_evolves h ht _ he ▸ hlink)
  handler he := Chain.handlerOf_evolves h ht o he
  chains {function} hfunction := by
    intro chain hmem
    obtain ⟨hchain, body, hbody, hwhich⟩ := mem_handlerChains.mp hmem
    have hbody : Chain.bodyOf? t function = some body := by
      obtain ⟨k, f, hdata, hbody⟩ := Chain.bodyOf?_eq_some_iff.mp hbody
      exact Chain.bodyOf?_eq_some_iff.mpr
        ⟨k, f, h.data?_before hfunction hdata (by simp), hbody⟩
    have hlt := lt_size_of_bodyOf? ht hbody
    have hsame {e : NodeId} (he : e < t.size) : isChain t' o (some e) = isChain t o (some e) :=
      Chain.isChain_evolves h ht o (holds_some.mpr he)
    rw [h.statements? hlt] at hwhich
    rcases hwhich with ⟨hnone, rfl⟩ | ⟨list, hlist, statement, hmem, hdata⟩
    · exact mem_handlerChains.mpr ⟨hsame hlt ▸ hchain, body, hbody, .inl ⟨hnone, rfl⟩⟩
    · have hstatement := ht.statement_lt hlist hmem
      have hdata := hdata.imp (data?_of_returns_chain h (.refl t') hstatement hchain)
        fun hdata => h.data?_before hstatement hdata (by simp)
      have hlt : chain < t.size := by
        rcases hdata with hdata | hdata <;> exact ht.child_lt hdata (by simp [Data.children])
      exact mem_handlerChains.mpr
        ⟨hsame hlt ▸ hchain, body, hbody, .inr ⟨list, hlist, statement, hmem, hdata⟩⟩
  parameter hfunction := plainParameter?_evolves h ht b hfunction

end Unchain.Naming
