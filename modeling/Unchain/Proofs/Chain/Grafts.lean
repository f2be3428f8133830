import Unchain.Chain.Group
import Unchain.Proofs.Chain.Spine
import Unchain.Proofs.Syntax.Rows

/-!
# Grafting chains

Gluing puts the value of a variable in place of the leaf of a chain, and makes the
links of the chain again around it. `Continues` says what a chain goes on through,
`Grafts` what becomes of the tree: there are more links, and nodes may have one of
them as their parent. After `substitute`, a chain goes on through the names that it
or the value went on through (`substituteUpTo_spec`).
-/

namespace Unchain

namespace Syntax.Tree

theorem data?_setOrigin (t : Tree) (id other : NodeId) (origin : Option NodeId) :
    (t.setOrigin id origin).data? other = t.data? other := by
  simp only [data?, setOrigin, node?_modify]
  split <;> simp [Function.comp_def]

/-- What a node holds stands below it. -/
theorem Below.of_data? {t : Tree} {id child : NodeId} {data : Data} (hdata : t.data? id = some data)
    (hmem : child ∈ data.children) : t.Below id child := by
  refine .child .refl ?_
  rw [children, hdata]
  exact hmem

end Syntax.Tree

namespace Chain

open Promise (Oracle)
open Syntax (Data Flags Node NodeId Tree)
open Syntax.Tree (Below Evolves Grows holds_some lt_size_of_data? lt_size_of_node?)

variable {t t' t₀ : Tree} {o : Oracle} {e x : NodeId}

/-! ### What a chain goes on through -/

/-- From its outermost expression `e` inwards, a chain goes on through `x`: calls through their
callees, members through what has them, and parentheses through what they hold. -/
inductive Continues (t : Tree) (e : NodeId) : NodeId → Prop where
  | refl : Continues t e e
  | step {x inner : NodeId} {data : Data} (h : Continues t e x) (hdata : t.data? x = some data)
      (hinner : inner? data = some (some inner)) : Continues t e inner

theorem mem_children_of_inner? {data : Data} {inner : NodeId}
    (h : inner? data = some (some inner)) : inner ∈ data.children := by
  unfold inner? at h
  split at h <;> cases h <;> simp [Data.children]

namespace Continues

theorem trans {y : NodeId} (h : Continues t e x) (h' : Continues t x y) : Continues t e y := by
  induction h' with
  | refl => exact h
  | step _ hdata hinner ih => exact .step ih hdata hinner

theorem is_below (h : Continues t e x) : t.Below e x := by
  induction h with
  | refl => exact .refl
  | step _ hdata hinner ih => exact ih.trans (.of_data? hdata (mem_children_of_inner? hinner))

end Continues

theorem continues_skipParentheses (h : t.skipParentheses (some e) = some x) :
    Continues t e x := by
  unfold Tree.skipParentheses at h
  generalize t.size + 1 = fuel at h
  induction fuel generalizing e with
  | zero =>
    obtain rfl := Option.some.inj h
    exact .refl
  | succ fuel ih =>
    rw [Tree.skipParentheses.go] at h
    split at h
    · next inner hdata =>
      cases inner with
      | none =>
        rw [Tree.skipParentheses_go_none] at h
        cases h
      | some inner => exact (Continues.step .refl hdata rfl).trans (ih h)
    · obtain rfl := Option.some.inj h
      exact .refl

theorem receiver?_linkOf_none : (linkOf t o none).receiver? = none :=
  receiver?_plain (t := t) (o := o) none

theorem continues_receiver {id inner : NodeId}
    (h : (linkOf t o (some id)).receiver? = some (some inner)) : Continues t id inner := by
  rcases linkOf_receiver? h with
    ⟨-, name, q, hdata⟩ | ⟨receiver, hsome, -, callee, arguments, hcalls⟩
  · exact .step .refl hdata rfl
  · obtain rfl := Option.some.inj hsome
    obtain ⟨outer, types, list, name, hcall, -, hcallee, hmember⟩ := hcalls
    cases outer with
    | none =>
      rw [Tree.skipParentheses_none] at hcallee
      cases hcallee
    | some outer =>
      have houter : Continues t id outer := .step .refl hcall rfl
      exact .step (houter.trans (continues_skipParentheses hcallee)) hmember rfl

/-- A chain goes on through its links. -/
theorem continues_of_mem_spineUpTo {limit : Nat} {e : Option NodeId} {link : Link}
    (h : (some x, link) ∈ spineUpTo t o limit e) :
    ∃ first, e = some first ∧ Continues t first x := by
  induction limit generalizing e with
  | zero => cases h
  | succ limit ih =>
    cases e with
    | none =>
      simp only [spineUpTo, Tree.skipParentheses_none, receiver?_linkOf_none] at h
      cases List.mem_singleton.mp h
    | some first =>
      refine ⟨first, rfl, ?_⟩
      simp only [spineUpTo] at h
      rcases List.mem_cons.mp h with heq | hrest
      · exact continues_skipParentheses (Prod.mk.inj heq).1.symm
      cases hskip : t.skipParentheses (some first) with
      | none =>
        rw [hskip, receiver?_linkOf_none] at hrest
        cases hrest
      | some id =>
        rw [hskip] at hrest
        cases hreceiver : (linkOf t o (some id)).receiver? with
        | none =>
          rw [hreceiver] at hrest
          cases hrest
        | some part =>
          rw [hreceiver, Option.map_some, Option.getD_some] at hrest
          obtain ⟨inner, rfl, hinner⟩ := ih hrest
          have hid : Continues t first id := continues_skipParentheses hskip
          exact hid.trans ((continues_receiver hreceiver).trans hinner)

/-- A chain goes on through its leaf. -/
theorem continues_leaf (h : leaf t o (some e) = some x) : Continues t e x := by
  unfold leaf at h
  cases hlast : (spine t o (some e)).getLast? with
  | none =>
    rw [hlast] at h
    obtain rfl := Option.some.inj h
    exact .refl
  | some entry =>
    rw [hlast] at h
    obtain ⟨id, link⟩ := entry
    obtain rfl : id = some x := h
    obtain ⟨first, hfirst, hcontinues⟩ :=
      continues_of_mem_spineUpTo (List.mem_of_getLast? hlast)
    obtain rfl := Option.some.inj hfirst
    exact hcontinues

/-! ### What gluing does to a tree -/

/-- `t'` has the nodes of `t`, and new ones that chains go on through; nodes got no other parents
than new ones. -/
structure Grafts (t t' : Tree) : Prop where
  grows : t.Grows t'
  inner : ∀ {id : NodeId} {data : Data}, t.size ≤ id → t'.data? id = some data →
    (inner? data).isSome
  parent : ∀ {id parent : NodeId}, id < t.size → t'.parent? id = some parent →
    t.parent? id = some parent ∨ t.size ≤ parent

theorem inner?_withInner {data : Data} (h : (inner? data).isSome) (inner : Option NodeId) :
    inner? (withInner data inner) = some inner := by
  unfold inner? at h
  split at h <;> first | rfl | cases h

theorem isIdentifier_of_inner? {data : Data} (h : (inner? data).isSome) :
    data.isIdentifier = false := by
  unfold inner? at h
  split at h <;> first | rfl | cases h

namespace Grafts

theorem refl (t : Tree) : Grafts t t where
  grows := .refl t
  inner hid hdata := absurd (lt_size_of_data? hdata) (Nat.not_lt.mpr hid)
  parent _ h := .inl h

theorem size_le (h : Grafts t t') : t.size ≤ t'.size := h.grows.evolves.size_le

/-- Old nodes hold what they held. -/
theorem data?_eq (h : Grafts t t') (hx : x < t.size) : t'.data? x = t.data? x := by
  obtain ⟨n, hn⟩ := Tree.node?_eq_some_of_lt hx
  have hd := Tree.data?_of_node? hn
  exact (h.grows.data? hd).trans hd.symm

theorem trans {t'' : Tree} (h : Grafts t t') (h' : Grafts t' t'') : Grafts t t'' where
  grows := h.grows.trans h'.grows
  inner {id data} hid hdata := by
    by_cases hold : id < t'.size
    · exact h.inner hid ((h'.data?_eq hold).symm.trans hdata)
    · exact h'.inner (Nat.le_of_not_lt hold) hdata
  parent {id parent} hid hparent := by
    rcases h'.parent (Nat.lt_of_lt_of_le hid h.size_le) hparent with hbefore | hnew
    · exact h.parent hid hbefore
    · exact .inr (Nat.le_trans h.size_le hnew)

/-- Names are never new. -/
theorem lt_of_isIdentifier (h : Grafts t t') (hx : t'.isIdentifier x = true) : x < t.size := by
  refine Nat.lt_of_not_le fun hnew => ?_
  cases hdata : t'.data? x with
  | none => simp [Tree.isIdentifier, hdata] at hx
  | some data =>
    simp [Tree.isIdentifier, hdata, isIdentifier_of_inner? (h.inner hnew hdata)] at hx

/-- A path through old nodes was there before. -/
theorem continues (h : Grafts t t') (ht : t.Closed) (he : e < t.size) (hx : Continues t' e x) :
    Continues t e x ∧ x < t.size := by
  induction hx with
  | refl => exact ⟨.refl, he⟩
  | step _ hdata hinner ih =>
    obtain ⟨hcontinues, hlt⟩ := ih
    rw [h.data?_eq hlt] at hdata
    exact ⟨.step hcontinues hdata hinner, ht.child_lt hdata (mem_children_of_inner? hinner)⟩

/-- Making a link again with another receiver. -/
theorem link {data : Data} (hinner : (inner? data).isSome) (pos stop : Nat) (flags : Flags)
    (inner origin : Option NodeId) :
    Grafts t (((t.add (withInner data inner) pos stop flags).2).setOrigin t.size origin) := by
  have hother (id : NodeId) (hid : id < t.size) :
      (((t.add (withInner data inner) pos stop flags).2).setOrigin t.size origin).node? id =
        (t.add (withInner data inner) pos stop flags).2.node? id := by
    rw [Tree.setOrigin, Tree.node?_modify, if_neg fun heq => Nat.lt_irrefl _ (heq ▸ hid)]
  refine ⟨⟨fun {id n} hn => ?_⟩, fun {id d} hid hd => ?_, fun {id parent} hid hparent => ?_⟩
  · rw [hother id (lt_size_of_node? hn)]
    exact (Grows.add t _ pos stop flags).node hn
  · rw [Tree.data?_setOrigin] at hd
    rcases Tree.of_data?_add hd with ⟨-, rfl⟩ | ⟨hold, -⟩
    · rw [inner?_withInner hinner]
      rfl
    · exact absurd hold (Nat.not_lt.mpr hid)
  · rw [Tree.parent?, hother id hid, Tree.node?_add_of_lt hid] at hparent
    split at hparent
    · cases hn : t.node? id with
      | none => simp [hn] at hparent
      | some n =>
        rw [hn] at hparent
        exact .inr (Nat.le_of_eq (Option.some.inj hparent))
    · exact .inl hparent

end Grafts

/-! ### Substitution -/

/-- In a link that is made again, a chain goes on through the link and then through its new
receiver. -/
theorem continues_link {data : Data} (hinner : (inner? data).isSome) {pos stop : Nat}
    {flags : Flags} {inner origin : Option NodeId}
    (hx : Continues ((t.add (withInner data inner) pos stop flags).2.setOrigin t.size origin)
      t.size x) : x = t.size ∨ ∃ first, inner = some first ∧ Continues t first x := by
  induction hx with
  | refl => exact .inl rfl
  | @step x next _ _ hdata hnext ih =>
    rw [Tree.data?_setOrigin] at hdata
    rcases Tree.of_data?_add hdata with ⟨rfl, rfl⟩ | ⟨hold, hdata⟩
    · rw [inner?_withInner hinner] at hnext
      exact .inr ⟨next, Option.some.inj hnext, .refl⟩
    · rcases ih with rfl | ⟨first, hfirst, hcontinues⟩
      · exact absurd hold (Nat.lt_irrefl _)
      · exact .inr ⟨first, hfirst, .step hcontinues hdata hnext⟩

/-- The names that the chain goes on through after a substitution are those before it and those
that what was put in goes on through. -/
theorem substituteUpTo_spec (leaf new : NodeId) (fuel : Nat) (id : NodeId) (t : Tree) :
    Grafts t (substituteUpTo leaf new fuel id t).2 ∧
      ∀ x, Continues (substituteUpTo leaf new fuel id t).2 (substituteUpTo leaf new fuel id t).1 x →
        (substituteUpTo leaf new fuel id t).2.isIdentifier x = true →
        Continues t id x ∨ Continues t new x := by
  induction fuel generalizing id with
  | zero => exact ⟨.refl t, fun x hx _ => .inl hx⟩
  | succ fuel ih =>
    rw [substituteUpTo]
    split
    · exact ⟨.refl t, fun x hx _ => .inr hx⟩
    split
    · exact ⟨.refl t, fun x hx _ => .inl hx⟩
    next node hnode =>
    split
    · exact ⟨.refl t, fun x hx _ => .inl hx⟩
    next inner hinner =>
    have hlink : (inner? node.data).isSome := by rw [hinner]; rfl
    -- A new link is put around what the part inside of it became.
    cases inner with
    | none =>
      have hgrafts := Grafts.link (t := t) hlink node.pos node.stop node.flags none (some id)
      refine ⟨hgrafts, fun x hx hname => ?_⟩
      rcases continues_link hlink hx with rfl | ⟨first, hfirst, -⟩
      · exact absurd (hgrafts.lt_of_isIdentifier hname) (Nat.lt_irrefl _)
      · cases hfirst
    | some inner =>
      obtain ⟨hgrafts, hcontinues⟩ := ih inner
      dsimp only
      generalize substituteUpTo leaf new fuel inner t = made at *
      obtain ⟨made, t₁⟩ := made
      dsimp only at *
      have hgrafts' :=
        Grafts.link (t := t₁) hlink node.pos node.stop node.flags (some made) (some id)
      refine ⟨hgrafts.trans hgrafts', fun x hx hname => ?_⟩
      have hold := hgrafts'.lt_of_isIdentifier hname
      rcases continues_link hlink hx with rfl | ⟨first, hfirst, hx⟩
      · exact absurd hold (Nat.lt_irrefl _)
      obtain rfl := Option.some.inj hfirst
      have hname' : t₁.isIdentifier x = true := by
        rw [← hgrafts'.grows.evolves.isIdentifier hold]
        exact hname
      have hstep : Continues t id inner :=
        .step .refl (Tree.data?_of_node? hnode) hinner
      exact (hcontinues x hx hname').imp_left hstep.trans

/-! ### Definitions -/

/-- The target and the value of a definition stand in its statement. -/
theorem below_of_definition? {statement : NodeId} {d : Definition}
    (h : definition? t statement = some d) :
    t.Below statement d.target ∧ t.Below statement d.value := by
  have hskip {e : Option NodeId} {id : NodeId} (he : t.skipParentheses e = some id) :
      ∃ outer, e = some outer ∧ t.Below outer id := by
    cases e with
    | none => rw [Tree.skipParentheses_none] at he; cases he
    | some outer => exact ⟨outer, rfl, (continues_skipParentheses he).is_below⟩
  unfold definition? at h
  dsimp only at h
  split at h
  · next modifiers declaration pos stop comma hstatement =>
    split at h
    · next name definite type initializer hdeclaration =>
      obtain ⟨target, rfl, hvalue⟩ := Option.bind_eq_some_iff.mp h
      obtain ⟨value, rfl, hsome⟩ := Option.bind_eq_some_iff.mp hvalue
      obtain rfl := Option.some.inj (Option.ite_none_right_eq_some.mp hsome).2
      have hfirst : t.Below statement declaration :=
        .of_data? hstatement (by simp [Data.children])
      exact ⟨hfirst.trans (.of_data? hdeclaration (by simp [Data.children])),
        hfirst.trans (.of_data? hdeclaration (by simp [Data.children]))⟩
    · cases h
  · next e hstatement =>
    split at h
    · next left right hassign =>
      obtain ⟨target, htarget, hvalue⟩ := Option.bind_eq_some_iff.mp h
      obtain ⟨value, rfl, hsome⟩ := Option.bind_eq_some_iff.mp hvalue
      obtain rfl := Option.some.inj (Option.ite_none_right_eq_some.mp hsome).2
      obtain ⟨assign, hassigns, hdata⟩ := Option.bind_eq_some_iff.mp hassign
      obtain ⟨outer, rfl, houter⟩ := hskip hassigns
      obtain ⟨name, rfl, hname⟩ := hskip htarget
      have hfirst := (Below.of_data? hstatement (by simp [Data.children])).trans houter
      exact ⟨(hfirst.trans (.of_data? hdata (by simp [Data.children]))).trans hname,
        hfirst.trans (.of_data? hdata (by simp [Data.children]))⟩
    · cases h
  · cases h

/-- Statements define what they defined. -/
theorem Grafts.definition? (h : Grafts t t') (ht : t.Closed) {statement : NodeId}
    (hstatement : statement < t.size) :
    Chain.definition? t' statement = Chain.definition? t statement := by
  -- Both forms of a definition end in a look at the node that is assigned to.
  have hname {target value : Option NodeId} (declares : Bool) (htarget : t.Holds target) :
      (do
        let target ← target
        let value ← value
        if t'.isIdentifier target then some (Definition.mk target value declares) else none) =
      (do
        let target ← target
        let value ← value
        if t.isIdentifier target then some (Definition.mk target value declares) else none) := by
    cases target with
    | none => rfl
    | some target =>
      simp only [Option.bind_eq_bind, Option.bind_some]
      rw [h.grows.evolves.isIdentifier (holds_some.mp htarget)]
  have hpart {id : NodeId} {data : Data} (hdata : t.data? id = some data) {part : Option NodeId}
      (hpart : ∀ id, part = some id → id ∈ data.children) : t.Holds part :=
    fun x hx => ht.child_lt hdata (hpart x hx)
  unfold Chain.definition?
  dsimp only
  rw [h.data?_eq hstatement]
  split
  · next modifiers declaration pos stop comma hdata =>
    rw [h.data?_eq (ht.child_lt hdata (by simp [Data.children]))]
    split
    · next name definite type initializer hdeclaration =>
      exact hname true (hpart hdeclaration (by simp +contextual [Data.children]))
    · rfl
  · next e hdata =>
    have he : t.Holds e := hpart hdata (by simp +contextual [Data.children])
    have hskip := Syntax.Tree.holds_skipParentheses ht he
    have hsame : t'.partData? (t.skipParentheses e) = t.partData? (t.skipParentheses e) := by
      cases hs : t.skipParentheses e with
      | none => rfl
      | some id => exact h.data?_eq (hskip id hs)
    rw [h.grows.evolves.skipParentheses ht he, hsame]
    split
    · next left right hassign =>
      have hleft : t.Holds left :=
        ht.holds_child hassign (by simp +contextual [Data.children])
      rw [h.grows.evolves.skipParentheses ht hleft]
      exact hname false (Syntax.Tree.holds_skipParentheses ht hleft)
    · rfl
  · rfl

/-! ### Statements -/

theorem statements?_of_inner? {data : Data} (h : (inner? data).isSome)
    (hdata : t.data? x = some data) : t.statements? x = none := by
  unfold inner? at h
  unfold Tree.statements?
  rw [hdata]
  split at h <;> first | rfl | cases h

/-- A statement that was there has the statements before it that it had, if any. -/
theorem Grafts.statementsBefore (h : Grafts t₀ t) {statement : NodeId}
    (hstatement : statement < t₀.size) : Chain.statementsBefore t statement = [] ∨
      Chain.statementsBefore t statement = Chain.statementsBefore t₀ statement := by
  have hnew {parent : NodeId} (hparent : t₀.size ≤ parent) : t.statements? parent = none := by
    cases hdata : t.data? parent with
    | none => rw [Tree.statements?, hdata]
    | some data => exact statements?_of_inner? (h.inner hparent hdata) hdata
  unfold Chain.statementsBefore
  cases hparent : t.parent? statement with
  | none => exact .inl rfl
  | some parent =>
    rw [Option.bind_some]
    by_cases hold : parent < t₀.size
    · rcases h.parent hstatement hparent with hsame | hle
      · rw [hsame, Option.bind_some, h.grows.evolves.statements? hold]
        exact .inr rfl
      · exact absurd hold (Nat.not_lt.mpr hle)
    · rw [hnew (Nat.le_of_not_lt hold)]
      exact .inl rfl

theorem Grafts.prefix_statementsBefore (h : Grafts t₀ t) {statement : NodeId}
    (hstatement : statement < t₀.size) {before : List NodeId}
    (hbefore : before <+: Chain.statementsBefore t statement) :
    before <+: Chain.statementsBefore t₀ statement := by
  rcases h.statementsBefore hstatement with hnil | hsame
  · rw [hnil, List.prefix_nil] at hbefore
    rw [hbefore]
    exact List.nil_prefix
  · rwa [← hsame]

end Chain

end Unchain
