import Unchain.Proofs.Chain.Outline

/-!
# Copies of chains

Putting another expression in place of the leaf of a chain makes a copy of each of
its links (`Copies`, `copies_substituteUpTo`). A copy is of the same kind as the
link that it was made from, and has the same origin.

`outline` is what this keeps of the spine of a chain. If the leaf is a name and a
promise is put in its place, the outline of the copied chain is that of the chain
without the leaf, followed by that of what was put in (`Copies.outlineUpTo_eq`).
-/

namespace Unchain

namespace Syntax.Tree

variable {t : Tree}

theorem BottomUp.child_lt (h : t.BottomUp) {id child : NodeId} {data : Data}
    (hdata : t.data? id = some data) (hmem : child ∈ data.children) : child < id :=
  h.part_lt hdata child (Data.mem_parts_of_mem_children hmem)

/-- A node that is made of nodes of the tree holds older ones. -/
theorem BottomUp.add (h : t.BottomUp) {data : Data} (hparts : ∀ part ∈ data.parts, part < t.size)
    (pos stop : Nat) (flags : Flags) (origin : Option NodeId) :
    ((t.add data pos stop flags).2.setOrigin t.size origin).BottomUp := by
  refine ⟨fun {id d} hd part hpart => ?_⟩
  rw [data?_setOrigin] at hd
  rcases of_data?_add hd with ⟨rfl, rfl⟩ | ⟨-, hd⟩
  · exact hparts part hpart
  · exact h.part_lt hd part hpart

/-- A node that was made from an older one has the origin of that. -/
theorem originOf_of_origin {id earlier : NodeId}
    (horigin : (t.node? id).bind Node.origin = some earlier) (hlt : earlier < id) :
    t.originOf id = t.originOf earlier := by
  obtain ⟨n, hn, -⟩ := Option.bind_eq_some_iff.mp horigin
  have hid : id < t.size := lt_size_of_node? hn
  have hstep : originOf.go t (t.size - 1 + 1) id = originOf.go t (t.size - 1) earlier := by
    rw [originOf.go, horigin]
    exact if_pos hlt
  rw [Nat.sub_add_cancel (Nat.zero_lt_of_lt hid)] at hstep
  have hearlier : earlier < t.size - 1 := Nat.lt_of_lt_of_le hlt (Nat.le_sub_one_of_lt hid)
  have hold : earlier < t.size := Nat.lt_trans hlt hid
  exact hstep.trans (originOf_go_eq (fun _ => rfl) earlier _ _ hold hearlier hold)

end Syntax.Tree

namespace Chain

open Promise (Oracle)
open Syntax (Data Flags Node NodeId NodeList Tree)
open Syntax.Tree (BottomUp Evolves Grows holds_some lt_size_of_data?)

variable {t t' : Tree} {o : Oracle} {leaf new e e' x x' : NodeId}

/-! ### Links that are made again -/

theorem mem_parts_withInner {data : Data} {inner : Option NodeId} {part : NodeId}
    (h : part ∈ (withInner data inner).parts) : inner = some part ∨ part ∈ data.parts := by
  unfold withInner at h
  split at h
  · exact .inl (Option.mem_toList.mp h)
  · simp only [Data.parts, Data.children, List.mem_append, Option.mem_toList] at h ⊢
    rcases h with (h | h) | h
    · exact .inl h
    · exact .inr (.inl (.inr h))
    · exact .inr (.inr h)
  · simp only [Data.parts, Data.children, List.mem_append, Option.mem_toList] at h ⊢
    rcases h with h | h
    · exact .inl h
    · exact .inr (.inr h)
  · exact .inr h

theorem originOf_link {data : Data} (hinner : (inner? data).isSome) (pos stop : Nat)
    (flags : Flags) (inner : Option NodeId) {earlier : NodeId} (hearlier : earlier < t.size) :
    ((t.add (withInner data inner) pos stop flags).2.setOrigin t.size (some earlier)).originOf
      t.size = t.originOf earlier := by
  have hgrafts := Grafts.link (t := t) hinner pos stop flags inner (some earlier)
  rw [← hgrafts.grows.evolves.originOf hearlier]
  refine Syntax.Tree.originOf_of_origin ?_ hearlier
  obtain ⟨p, hp⟩ := Grows.node?_add_self t (withInner data inner) pos stop flags
  rw [Tree.setOrigin, Tree.node?_modify, if_pos rfl, hp]
  rfl

/-- From `e'` inwards `t'` has a copy of what `t` has from `e` inwards, with `new` in place of
`leaf`. -/
inductive Copies (t t' : Tree) (leaf new : NodeId) : NodeId → NodeId → Prop where
  | leaf : Copies t t' leaf new leaf new
  | link {e e' inner inner' : NodeId} {data : Data} (hne : e ≠ leaf)
      (hdata : t.data? e = some data) (hinner : inner? data = some (some inner))
      (hdata' : t'.data? e' = some (withInner data (some inner')))
      (horigin : t'.originOf e' = t.originOf e) (rest : Copies t t' leaf new inner inner') :
      Copies t t' leaf new e e'

theorem Continues.cases_head (h : Continues t e x) (hne : e ≠ x) : ∃ data inner,
    t.data? e = some data ∧ inner? data = some (some inner) ∧ Continues t inner x := by
  induction h with
  | refl => exact absurd rfl hne
  | @step y inner data hy hdata hinner ih =>
    by_cases heq : e = y
    · subst heq
      exact ⟨data, inner, hdata, hinner, .refl⟩
    · obtain ⟨first, second, hfirst, hsecond, hrest⟩ := ih heq
      exact ⟨first, second, hfirst, hsecond, .step hrest hdata hinner⟩

namespace Copies

/-- A copy stays one while the tree grows. -/
theorem grows {t'' : Tree} (h : Copies t t' leaf new e e') (hgrows : t'.Grows t'') :
    Copies t t'' leaf new e e' := by
  induction h with
  | leaf => exact .leaf
  | link hne hdata hinner hdata' horigin _ ih =>
    refine .link hne hdata hinner (hgrows.data? hdata') ?_ ih
    exact (hgrows.evolves.originOf (lt_size_of_data? hdata')).trans horigin

theorem lt_size (h : Copies t t' leaf new e e') (hnew : new < t'.size) : e' < t'.size := by
  cases h with
  | leaf => exact hnew
  | link _ _ _ hdata' => exact lt_size_of_data? hdata'

/-- A link and its copy lie around a link and its copy. -/
theorem of_data? (h : Copies t t' leaf new e e') (hne : e ≠ leaf) {data : Data}
    {part : Option NodeId} (hdata : t.data? e = some data) (hpart : inner? data = some part) :
    ∃ inner inner', part = some inner ∧ Copies t t' leaf new inner inner' ∧
      t'.data? e' = some (withInner data (some inner')) := by
  cases h with
  | leaf => exact absurd rfl hne
  | @link _ _ inner inner' data' _ hdata₀ hinner hdata' _ rest =>
    obtain rfl := Option.some.inj (hdata.symm.trans hdata₀)
    exact ⟨inner, inner', Option.some.inj (hpart.symm.trans hinner), rest, hdata'⟩

theorem originOf_eq (h : Copies t t' leaf new e e') (hne : e ≠ leaf) :
    t'.originOf e' = t.originOf e := by
  cases h with
  | leaf => exact absurd rfl hne
  | link _ _ _ _ horigin => exact horigin

end Copies

/-- A substitution makes a copy of the links on the way to the leaf. -/
theorem copies_substituteUpTo (ht : t.BottomUp) (hnew : new < t.size) {fuel : Nat}
    (hfuel : e < fuel) (hleaf : Continues t e leaf) (he : e < t.size) :
    (substituteUpTo leaf new fuel e t).2.BottomUp ∧
      Copies t (substituteUpTo leaf new fuel e t).2 leaf new e
        (substituteUpTo leaf new fuel e t).1 := by
  induction fuel generalizing e with
  | zero => exact absurd hfuel (Nat.not_lt_zero e)
  | succ fuel ih =>
    rw [substituteUpTo]
    split
    · next heq => exact ⟨ht, heq ▸ .leaf⟩
    next hne =>
    obtain ⟨data, inner, hdata, hinner, hrest⟩ := hleaf.cases_head hne
    obtain ⟨node, hnode, rfl⟩ := Option.map_eq_some_iff.mp hdata
    have hlt := ht.child_lt hdata (mem_children_of_inner? hinner)
    have hlink : (inner? node.data).isSome := by rw [hinner]; rfl
    obtain ⟨hbottom, hcopies⟩ :=
      ih (Nat.lt_of_lt_of_le hlt (Nat.le_of_lt_succ hfuel)) hrest (Nat.lt_trans hlt he)
    have hgrafts := (substituteUpTo_spec leaf new fuel inner t).1
    simp only [hnode, hinner]
    generalize substituteUpTo leaf new fuel inner t = made at *
    obtain ⟨made, t₁⟩ := made
    dsimp only at *
    have hsize := hgrafts.size_le
    have hmade := hcopies.lt_size (Nat.lt_of_lt_of_le hnew hsize)
    have hgrafts' :=
      Grafts.link (t := t₁) hlink node.pos node.stop node.flags (some made) (some e)
    refine ⟨hbottom.add (fun part hpart => ?_) _ _ _ _, .link hne hdata hinner ?_ ?_
      (hcopies.grows hgrafts'.grows)⟩
    · rcases mem_parts_withInner hpart with hsame | hold
      · exact Option.some.inj hsame ▸ hmade
      · exact Nat.lt_of_lt_of_le (ht.closed.part_lt hdata part hold) hsize
    · rw [Tree.data?_setOrigin]
      exact Tree.data?_add_self ..
    · have hold : e < t₁.size := Nat.lt_of_lt_of_le he hsize
      exact (originOf_link hlink _ _ _ _ hold).trans (hgrafts.grows.evolves.originOf he)

/-! ### Calls of methods -/

theorem kind_linkOfMethod (callee receiver callee' receiver' : NodeId) (method : String)
    (arguments : List NodeId) :
    (linkOfMethod t callee' receiver' method arguments).kind =
      (linkOfMethod t callee receiver method arguments).kind := by
  unfold linkOfMethod
  dsimp only
  split
  · rfl
  · split <;> rfl

theorem linkOf_call {outer types : Option NodeId} {list : Option NodeList} {link : Link}
    (hdata : t.data? x = some (.call .call outer types list))
    (hlink : methodLink? t o outer (Data.listNodes list) = some link) :
    linkOf t o (some x) = link := by
  simp only [linkOf, Tree.partData?, Option.bind_some, hdata, hlink, Option.getD_some]

/-- A call on which a chain goes on is a link by the name of its method. -/
theorem methodLink?_of_receiver? {outer types : Option NodeId} {list : Option NodeList}
    (hdata : t.data? x = some (.call .call outer types list))
    (hreceiver : (linkOf t o (some x)).receiver?.isSome) :
    methodLink? t o outer (Data.listNodes list) = some (linkOf t o (some x)) := by
  cases hlink : methodLink? t o outer (Data.listNodes list) with
  | some link => rw [linkOf_call hdata hlink]
  | none =>
    have hplain : (linkOf t o (some x)).receiver? = none := by
      simp only [linkOf, Tree.partData?, Option.bind_some, hdata, hlink, Option.getD_none]
      exact receiver?_plain (some x)
    rw [hplain] at hreceiver
    cases hreceiver

/-! ### The outline of a copy -/

/-- The tree `t'` has grown from `t`, and a promise is to stand for a name there. -/
structure Replaces (t t' : Tree) (o : Oracle) (leaf new : NodeId) : Prop where
  closed : t.Closed
  closed' : t'.Closed
  grows : t.Grows t'
  name : t.isIdentifier leaf = true
  promise : isPromise t' o (some new) = true

/-- The leaf is a name, which holds nothing that a chain goes on through. -/
theorem Replaces.ne_leaf (hr : Replaces t t' o leaf new) {data : Data}
    (hdata : t.data? x = some data) (hinner : (inner? data).isSome) : x ≠ leaf := by
  rintro rfl
  obtain ⟨text, hidentifier⟩ := data?_of_isIdentifier hr.name
  obtain rfl := Option.some.inj (hidentifier.symm.trans hdata)
  cases hinner

namespace Copies

theorem eq_new (h : Copies t t' leaf new leaf x) : x = new := by
  cases h with
  | leaf => rfl
  | link hne => exact absurd rfl hne

section

variable (hr : Replaces t t' o leaf new)
include hr

theorem gives_promise (h : Copies t t' leaf new e e') (he : isPromise t o (some e) = true) :
    isPromise t' o (some e') = true := by
  cases h with
  | leaf => exact hr.promise
  | link _ _ _ _ horigin =>
    rw [isPromise, Option.any_some, horigin]
    exact he

/-- Where the parentheses around a chain end, those around its copy end, or around what is in place
of its leaf. -/
theorem skipParentheses (h : Copies t t' leaf new e e')
    (hx : t.skipParentheses (some e) = some x) : ∃ x', Copies t t' leaf new x x' ∧
      t'.skipParentheses (some e') = t'.skipParentheses (some x') := by
  induction h with
  | leaf =>
    obtain ⟨text, hdata⟩ := data?_of_isIdentifier hr.name
    rw [Tree.skipParentheses_of_ne (by simp [hdata])] at hx
    obtain rfl := Option.some.inj hx
    exact ⟨new, .leaf, rfl⟩
  | @link e e' inner inner' data hne hdata hinner hdata' horigin rest ih =>
    by_cases hparentheses : ∃ part, data = .parenthesized part
    · obtain ⟨part, rfl⟩ := hparentheses
      obtain rfl := Option.some.inj hinner
      rw [Tree.skipParentheses_parenthesized hr.closed hdata] at hx
      obtain ⟨x', hcopies, hskip⟩ := ih hx
      exact ⟨x', hcopies, (Tree.skipParentheses_parenthesized hr.closed' hdata').trans hskip⟩
    · rw [Tree.skipParentheses_of_ne fun part hpart =>
        hparentheses ⟨part, Option.some.inj (hdata.symm.trans hpart)⟩] at hx
      obtain rfl := Option.some.inj hx
      exact ⟨e', .link hne hdata hinner hdata' horigin rest, rfl⟩

/-- The copy of the call of a method is a link of its kind on a copy of its receiver. -/
theorem exists_methodLink? {outer outer' receiver : NodeId} {arguments : List NodeId} {link : Link}
    (h : Copies t t' leaf new outer outer') (harguments : ∀ a ∈ arguments, a < t.size)
    (hlink : methodLink? t o (some outer) arguments = some link)
    (hreceiver : link.receiver? = some (some receiver)) :
    ∃ receiver' link', Copies t t' leaf new receiver receiver' ∧
      methodLink? t' o (some outer') arguments = some link' ∧
      link'.receiver? = some (some receiver') ∧ link'.kind = link.kind := by
  obtain ⟨callee, receiver₀, name, method, hskip, hcallee, hmethod, hmember, hpromise, rfl⟩ :=
    methodLink?_eq_some_iff.mp hlink
  obtain rfl := Option.some.inj (eq_of_receiver?_linkOfMethod hreceiver)
  obtain ⟨callee', hcopies, hskip'⟩ := h.skipParentheses hr hskip
  obtain ⟨_, receiver', hsame, hrest, hcallee'⟩ :=
    hcopies.of_data? (hr.ne_leaf hcallee rfl) hcallee rfl
  obtain rfl := Option.some.inj hsame
  have hend : t'.skipParentheses (some callee') = some callee' :=
    Tree.skipParentheses_of_ne (by simp [hcallee', withInner])
  have hname : t'.identifierText? name = some method := by
    rw [hr.grows.evolves.identifierText? (hr.closed.holds_child (e := some callee) hcallee
      (by simp +contextual [Data.children]))]
    exact hmethod
  have hkind : (linkOfMethod t' callee' receiver' method arguments).kind =
      (linkOfMethod t callee receiver method arguments).kind := by
    rw [linkOfMethod_evolves hr.grows.evolves _ _ _ harguments]
    exact kind_linkOfMethod ..
  obtain ⟨part, hpart⟩ : ∃ part,
      (linkOfMethod t' callee' receiver' method arguments).receiver? = some part := by
    rw [← Option.isSome_iff_exists, Link.isSome_receiver?, hkind, ← Link.isSome_receiver?,
      hreceiver]
    rfl
  have hlink' : methodLink? t' o (some outer') arguments =
      some (linkOfMethod t' callee' receiver' method arguments) :=
    methodLink?_eq_some_iff.mpr ⟨callee', receiver', name, method, hskip'.trans hend, hcallee',
      hname, hmember, hrest.gives_promise hr hpromise, rfl⟩
  rw [eq_of_receiver?_linkOfMethod hpart] at hpart
  exact ⟨receiver', _, hrest, hlink', hpart, hkind⟩

/-- The copy of a link is a link of its kind on a copy of its receiver. -/
theorem exists_receiver {receiver : NodeId} (h : Copies t t' leaf new x x')
    (hreceiver : (linkOf t o (some x)).receiver? = some (some receiver)) :
    ∃ receiver', Copies t t' leaf new receiver receiver' ∧
      (linkOf t' o (some x')).receiver? = some (some receiver') ∧
      (linkOf t' o (some x')).kind = (linkOf t o (some x)).kind ∧
      t'.originOf x' = t.originOf x ∧ t'.skipParentheses (some x') = some x' := by
  have hne : x ≠ leaf := by
    rintro rfl
    cases (receiver?_linkOf_of_isIdentifier hr.name).symm.trans hreceiver
  have horigin := h.originOf_eq hne
  rcases linkOf_receiver? hreceiver with
    ⟨hlink, name, q, hdata⟩ | ⟨receiver₀, hsame, -, callee, arguments, hcalls⟩
  · -- An access that gives no promise.
    obtain ⟨_, receiver', hsame, hrest, hdata'⟩ := h.of_data? hne hdata rfl
    obtain rfl := Option.some.inj hsame
    have hno : isPromise t o (some x) = false := by
      cases hpromise : isPromise t o (some x) with
      | false => rfl
      | true => simp [linkOf, Tree.partData?, hdata, hpromise] at hlink
    have hno' : isPromise t' o (some x') = false := by
      rw [isPromise, Option.any_some, horigin]
      exact hno
    have hlink' : linkOf t' o (some x') = .member (some receiver') := by
      simp [linkOf, Tree.partData?, hdata', withInner, hno']
    have hend : t'.skipParentheses (some x') = some x' :=
      Tree.skipParentheses_of_ne (by simp [hdata', withInner])
    rw [hlink', hlink]
    exact ⟨receiver', hrest, rfl, rfl, horigin, hend⟩
  · -- The call of a method.
    obtain ⟨outer, types, list, -, hdata, rfl, -⟩ := hcalls
    have hlink := methodLink?_of_receiver? (o := o) hdata (by rw [hreceiver]; rfl)
    obtain ⟨outer, outer', rfl, hcopies, hdata'⟩ := h.of_data? hne hdata rfl
    have harguments : ∀ a ∈ Data.listNodes list, a < t.size := fun a ha =>
      hr.closed.child_lt hdata (List.mem_append_right _ ha)
    obtain ⟨receiver', link', hrest, hlink', hreceiver', hkind⟩ :=
      hcopies.exists_methodLink? hr harguments hlink hreceiver
    have hend : t'.skipParentheses (some x') = some x' :=
      Tree.skipParentheses_of_ne (by simp [hdata', withInner])
    rw [linkOf_call hdata' hlink']
    exact ⟨receiver', hrest, hreceiver', hkind, horigin, hend⟩

/-- The outline of a copy is that of the chain up to its leaf, and then that of what is in place of
the leaf. -/
theorem outlineUpTo_eq {limit n m : Nat} {link : Link} (h : Copies t t' leaf new e e')
    (hlast : (spineUpTo t o limit (some e)).getLast? = some (some leaf, link)) (hn : n ≤ m) :
    outlineUpTo t' o n (some e') =
      ((outlineUpTo t o limit (some e)).dropLast ++ outlineUpTo t' o m (some new)).take n := by
  -- The links are followed until the leaf is reached or `n` of them are found.
  induction limit generalizing e e' n with
  | zero => cases hlast
  | succ limit ih =>
    obtain ⟨x, hskip, hend⟩ := getLast?_spineUpTo_succ hlast
    obtain ⟨x', hcopies, hskip'⟩ := h.skipParentheses hr hskip
    rw [outlineUpTo_congr hskip', outlineUpTo_succ limit, hskip]
    rcases hend with rfl | ⟨receiver, hreceiver, hrest⟩
    · obtain rfl := hcopies.eq_new
      rw [receiver?_linkOf_of_isIdentifier hr.name]
      exact (take_outlineUpTo hn _).symm
    · obtain ⟨receiver', hcopies', hreceiver', hkind, horigin, hend⟩ :=
        hcopies.exists_receiver hr hreceiver
      have hne : outlineUpTo t o limit (some receiver) ≠ [] := by
        rw [outlineUpTo, ne_eq, List.map_eq_nil_iff, ← List.getLast?_eq_none_iff, hrest]
        exact Option.some_ne_none _
      cases n with
      | zero => rfl
      | succ n =>
        have htail := ih hcopies' hrest (Nat.le_of_succ_le hn)
        simp only [outlineUpTo_succ n, hend, hreceiver, hreceiver', hkind, horigin, htail,
          Option.map_some, Option.getD_some, List.dropLast_cons_of_ne_nil hne, List.cons_append,
          List.take_succ_cons]

end

end Copies

/-- The outline of a chain in which a promise is put in place of a name. -/
theorem outline_substitute (ht : t.BottomUp) (he : e < t.size) (hnew : new < t.size)
    (hleaf : Chain.leaf t o (some e) = some leaf) (hname : t.isIdentifier leaf = true)
    (hpromise : isPromise t o (some new) = true) :
    let made := substitute t e leaf new
    made.2.BottomUp ∧ made.1 < made.2.size ∧
      outline made.2 o (some made.1) =
        ((outline t o (some e)).dropLast ++ outline t o (some new)).take Limits.chainLinks := by
  intro made
  obtain ⟨link, hlast⟩ := getLast?_spine hleaf
  obtain ⟨ht', hcopies⟩ := copies_substituteUpTo ht hnew (Nat.lt_succ_of_lt he)
    (continues_leaf hleaf) he
  have hgrows : t.Grows made.2 := (substituteUpTo_spec leaf new (t.size + 1) e t).1.grows
  have hheld : t.Holds (some new) := holds_some.mpr hnew
  have hreplaces : Replaces t made.2 o leaf new :=
    ⟨ht.closed, ht'.closed, hgrows, hname,
      (isPromise_evolves hgrows.evolves o hheld).trans hpromise⟩
  refine ⟨ht', hcopies.lt_size (Nat.lt_of_lt_of_le hnew hgrows.evolves.size_le), ?_⟩
  rw [← outline_evolves hgrows.evolves ht.closed hheld]
  exact hcopies.outlineUpTo_eq hreplaces hlast (Nat.le_refl _)

end Chain

end Unchain
