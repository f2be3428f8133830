import Unchain.Naming.Choose
import Unchain.Proofs.Naming.Sites

/-!
# Names that are spelled anew

Choosing names spells bindings anew where they are introduced and referred to
(`respells_choose?`). Such a name never stands for the absence of a
handler, and its new text is not that of a link. So the tree has no chain that
it did not have before, and its handlers read the same parameters
(`Respells.offers`).

It may have fewer chains: nothing is said about where the names stand, so one of
them might have named a link.
-/

namespace Unchain.Naming

open Binding (SymbolId Table)
open Chain (Link handlerChains handlerOf isChain isPromise linkOf linkOfMethod methodLink?
  spineUpTo)
open Promise (Oracle)
open Syntax (Data Node NodeId Tree)
open Syntax.Tree (holds_skipParentheses holds_some lt_size_of_data? skipParentheses_of_ne
  skipParentheses_parenthesized)

/-! ### Nodes -/

/-- What a node can come to be: a name another name, if it belongs to a binding, and what may hold
a name in short form the same with its key written out. -/
inductive Alike (isBound : Prop) : Data → Data → Prop where
  | same (d : Data) : Alike isBound d d
  | identifier {old new : String} (hbound : isBound) (hnew : new ∉ Promise.Names.links) :
      Alike isBound (.identifier old) (.identifier new)
  | privateIdentifier {old new : String} (hnew : new ∉ Promise.Names.links) :
      Alike isBound (.privateIdentifier old) (.privateIdentifier new)
  | property {k k' name name' initializer initializer'} :
      Alike isBound (.property k name initializer) (.property k' name' initializer')
  | bindingElement {isRest isRest' key key' name name' initializer initializer'} :
      Alike isBound (.bindingElement isRest key name initializer)
        (.bindingElement isRest' key' name' initializer')

/-- The nodes that can come to be others. -/
def isSpelled : Data → Bool
  | .identifier _ | .privateIdentifier _ | .property .. | .bindingElement .. => true
  | _ => false

namespace Alike

variable {isBound : Prop} {d d' d'' : Data}

theorem eq (h : Alike isBound d d') (hd : isSpelled d = false) : d' = d := by
  cases h with
  | same => rfl
  | _ => cases hd

theorem eq_of_after (h : Alike isBound d d') (hd : isSpelled d' = false) : d = d' := by
  cases h with
  | same => rfl
  | _ => cases hd

theorem trans (h : Alike isBound d d') (h' : Alike isBound d' d'') : Alike isBound d d'' := by
  cases h with
  | same => exact h'
  | identifier hbound hnew =>
    cases h' with
    | same => exact .identifier hbound hnew
    | identifier _ hnew' => exact .identifier hbound hnew'
  | privateIdentifier hnew =>
    cases h' with
    | same => exact .privateIdentifier hnew
    | privateIdentifier hnew' => exact .privateIdentifier hnew'
  | property => cases h' <;> exact .property
  | bindingElement => cases h' <;> exact .bindingElement

end Alike

/-- `t'` has the nodes of `t`, but names that belong to bindings may be spelled otherwise. -/
structure Respells (o : Oracle) (t t' : Tree) : Prop where
  size_le : t.size ≤ t'.size
  closed : t.Closed → t'.Closed
  origin : ∀ {id}, id < t.size →
    (t'.node? id).bind Node.origin = (t.node? id).bind Node.origin
  data? : ∀ {id d}, t.data? id = some d →
    ∃ d', t'.data? id = some d' ∧ Alike ((o.symbolAt? (t.originOf id)).isSome) d d'

variable {t t' t'' : Tree} {o : Oracle} {b : Table} {e : Option NodeId} {d : Data}

namespace Respells

theorem refl (t : Tree) : Respells o t t :=
  ⟨Nat.le_refl _, fun h => h, fun _ => rfl, fun hd => ⟨_, hd, .same _⟩⟩

theorem originOf (h : Respells o t t') {id : NodeId} (hid : id < t.size) :
    t'.originOf id = t.originOf id :=
  Tree.originOf_eq h.size_le h.origin hid

theorem trans (h : Respells o t t') (h' : Respells o t' t'') : Respells o t t'' where
  size_le := Nat.le_trans h.size_le h'.size_le
  closed ht := h'.closed (h.closed ht)
  origin hid := (h'.origin (Nat.lt_of_lt_of_le hid h.size_le)).trans (h.origin hid)
  data? hd := by
    obtain ⟨d', hd', halike⟩ := h.data? hd
    obtain ⟨d'', hd'', halike'⟩ := h'.data? hd'
    rw [h.originOf (lt_size_of_data? hd)] at halike'
    exact ⟨d'', hd'', halike.trans halike'⟩

section

variable (h : Respells o t t')
include h

/-- What a node of the tree holds before and after. -/
theorem data?_of_lt {id : NodeId} (hid : id < t.size) : ∃ d d', t.data? id = some d ∧
    t'.data? id = some d' ∧ Alike ((o.symbolAt? (t.originOf id)).isSome) d d' := by
  obtain ⟨n, hn⟩ := Tree.node?_eq_some_of_lt hid
  obtain ⟨d', hd', halike⟩ := h.data? (Tree.data?_of_node? hn)
  exact ⟨n.data, d', Tree.data?_of_node? hn, hd', halike⟩

theorem data?_eq {id : NodeId} (hd : t.data? id = some d) (hspelled : isSpelled d = false) :
    t'.data? id = some d := by
  obtain ⟨d', hd', halike⟩ := h.data? hd
  rw [hd', halike.eq hspelled]

theorem data?_before {id : NodeId} (hid : id < t.size) (hd : t'.data? id = some d)
    (hspelled : isSpelled d = false) : t.data? id = some d := by
  obtain ⟨c, d', hdata, hd', halike⟩ := h.data?_of_lt hid
  obtain rfl := Option.some.inj (hd.symm.trans hd')
  rw [← halike.eq_of_after hspelled]
  exact hdata

theorem partData?_before (he : t.Holds e) (hd : t'.partData? e = some d)
    (hspelled : isSpelled d = false) : t.partData? e = some d := by
  obtain ⟨id, rfl, hdata⟩ := Option.bind_eq_some_iff.mp hd
  exact h.data?_before (holds_some.mp he) hdata hspelled

theorem isPromise_eq (he : t.Holds e) : isPromise t' o e = isPromise t o e := by
  cases e with
  | none => rfl
  | some id =>
    simp only [isPromise, Option.any_some]
    rw [h.originOf (holds_some.mp he)]

variable (ht : t.Closed)
include ht

theorem skipParentheses (he : t.Holds e) : t'.skipParentheses e = t.skipParentheses e := by
  cases e with
  | none => simp
  | some id =>
    induction id using Nat.strongRecOn with
    | ind id ih =>
      have hid := holds_some.mp he
      by_cases hp : ∃ e', t.data? id = some (.parenthesized e')
      · obtain ⟨e', he'⟩ := hp
        rw [skipParentheses_parenthesized ht he',
          skipParentheses_parenthesized (h.closed ht) (h.data?_eq he' rfl)]
        cases e' with
        | none => simp
        | some e' =>
          have hlt := ht.inner_lt he'
          exact ih e' hlt (holds_some.mpr (Nat.lt_trans hlt hid))
      · rw [skipParentheses_of_ne fun e' he' => hp ⟨e', he'⟩,
          skipParentheses_of_ne fun e' he' => hp ⟨e', h.data?_before hid he' rfl⟩]

/-! ### Links -/

omit ht in
/-- The name of a link that is left is spelled as before. -/
theorem identifierText?_before {name : Option NodeId} {method : String} (hname : t.Holds name)
    (hmethod : method ∈ Promise.Names.links) (htext : t'.identifierText? name = some method) :
    t.identifierText? name = some method := by
  obtain ⟨id, rfl, hid⟩ : ∃ id, name = some id ∧ id < t.size := by
    cases name with
    | none => cases htext
    | some id => exact ⟨id, rfl, holds_some.mp hname⟩
  obtain ⟨d, d', hdata, hd', halike⟩ := h.data?_of_lt hid
  unfold Tree.identifierText? Tree.partData? at htext ⊢
  rw [Option.bind_some] at htext ⊢
  rw [hd'] at htext
  rw [hdata]
  cases halike with
  | same => exact htext
  | identifier _ hnew => exact absurd (Option.some.inj htext ▸ hmethod) hnew
  | privateIdentifier hnew => exact absurd (Option.some.inj htext ▸ hmethod) hnew
  | property => cases htext
  | bindingElement => cases htext

omit ht in
theorem linkOfMethod_eq (callee receiver : NodeId) (method : String) {arguments : List NodeId}
    (hargs : ∀ a ∈ arguments, a < t.size) :
    linkOfMethod t' callee receiver method arguments =
      linkOfMethod t callee receiver method arguments := by
  unfold linkOfMethod
  refine congrArg (fun spread : Bool => if spread = true then Link.promise else _) ?_
  induction arguments with
  | nil => rfl
  | cons a rest ih =>
    rw [List.any_cons, List.any_cons, ih fun b hb => hargs b (List.mem_cons_of_mem _ hb)]
    obtain ⟨d, d', hdata, hd', halike⟩ := h.data?_of_lt (hargs a List.mem_cons_self)
    rw [hd', hdata]
    cases halike <;> rfl

theorem methodLink?_before {callee : Option NodeId} (hcallee : t.Holds callee)
    {arguments : List NodeId} (hargs : ∀ a ∈ arguments, a < t.size) {link : Link}
    (hlink : methodLink? t' o callee arguments = some link) :
    methodLink? t o callee arguments = some link := by
  unfold methodLink? at hlink ⊢
  rw [h.skipParentheses ht hcallee] at hlink
  split at hlink
  · next callee receiver name hskip hdata =>
    have hpart := h.partData?_before (holds_skipParentheses ht hcallee) hdata rfl
    obtain ⟨method, hmethod, hcall⟩ := Option.bind_eq_some_iff.mp hlink
    obtain ⟨receiver, rfl, hbranch⟩ := Option.bind_eq_some_iff.mp hcall
    have hname : t.Holds name := ht.holds_child hpart (by simp +contextual [Data.children])
    have hreceiver : t.Holds (some receiver) := ht.holds_child hpart (by simp [Data.children])
    split at hbranch
    · next hcalls =>
      obtain ⟨hcontains, hpromise⟩ := Bool.and_eq_true_iff.mp hcalls
      have hmem : method ∈ Promise.Names.links := List.contains_iff_mem.mp hcontains
      rw [hskip] at hpart
      rw [hskip, hpart]
      dsimp only
      rw [h.identifierText?_before hname hmem hmethod]
      rw [h.isPromise_eq hreceiver] at hpromise
      rw [h.linkOfMethod_eq _ _ _ hargs] at hbranch
      simp [hmem, hpromise, hbranch]
    · cases hbranch
  · cases hlink

/-- A link is what it was, or it is no link any more. -/
theorem linkOf_cases (he : t.Holds e) : linkOf t' o e = linkOf t o e ∨
    linkOf t' o e = .promise ∨ linkOf t' o e = .other := by
  have hplain (p : Bool) : (if p = true then Link.promise else .other) = .promise ∨
      (if p = true then Link.promise else .other) = .other := by
    cases p <;> simp
  unfold linkOf
  rw [h.isPromise_eq he]
  cases e with
  | none => exact .inr (hplain _)
  | some id =>
    obtain ⟨d, d', hdata, hd', halike⟩ := h.data?_of_lt (holds_some.mp he)
    unfold Tree.partData?
    rw [Option.bind_some, Option.bind_some, hd', hdata]
    cases halike with
    | same =>
      cases d with
      | call k callee types arguments =>
        cases k with
        | new => exact .inl rfl
        | call =>
          dsimp only
          cases hlink : methodLink? t' o callee (Data.listNodes arguments) with
          | none => exact .inr (hplain _)
          | some link =>
            have hcallee : t.Holds callee := fun x hx =>
              ht.child_lt hdata (by simp [Data.children, hx])
            have hargs (a : NodeId) (ha : a ∈ Data.listNodes arguments) : a < t.size :=
              ht.child_lt hdata (by simp [Data.children, ha])
            rw [h.methodLink?_before ht hcallee hargs hlink]
            exact .inl rfl
      | access k => cases k <;> exact .inl rfl
      | _ => exact .inl rfl
    | _ => exact .inl rfl

theorem linkOf_eq (he : t.Holds e) {part : Option NodeId}
    (hreceiver : (linkOf t' o e).receiver? = some part) : linkOf t' o e = linkOf t o e := by
  rcases h.linkOf_cases ht he with heq | heq | heq
  · exact heq
  · rw [heq] at hreceiver; cases hreceiver
  · rw [heq] at hreceiver; cases hreceiver

theorem isChain_before (he : t.Holds e) (hchain : isChain t' o e = true) :
    isChain t o e = true := by
  have hskip := holds_skipParentheses ht he
  unfold isChain at hchain ⊢
  rw [h.skipParentheses ht he] at hchain
  rcases h.linkOf_cases ht hskip with heq | heq | heq
  · rw [← heq]; exact hchain
  · rw [heq] at hchain; cases hchain
  · rw [heq] at hchain; cases hchain

/-- A chain goes on as before, up to a link that is none any more. -/
theorem mem_spineUpTo {limit : Nat} (he : t.Holds e) {id : Option NodeId} {link : Link}
    (hlink : (id, link) ∈ spineUpTo t' o limit e) :
    link.handlers = (none, none) ∨ (id, link) ∈ spineUpTo t o limit e := by
  induction limit generalizing e with
  | zero => cases hlink
  | succ limit ih =>
    have hskip := holds_skipParentheses ht he
    rw [spineUpTo, h.skipParentheses ht he] at hlink
    rw [spineUpTo]
    rcases List.mem_cons.mp hlink with heq | hlink
    · obtain ⟨rfl, rfl⟩ := Prod.mk.inj heq
      rcases h.linkOf_cases ht hskip with heq | heq | heq
      · rw [heq]; exact .inr List.mem_cons_self
      · rw [heq]; exact .inl rfl
      · rw [heq]; exact .inl rfl
    · cases hreceiver : (linkOf t' o (t.skipParentheses e)).receiver? with
      | none => rw [hreceiver] at hlink; cases hlink
      | some part =>
        rw [hreceiver] at hlink
        have hlink : (id, link) ∈ spineUpTo t' o limit part := hlink
        have hbefore := h.linkOf_eq ht hskip hreceiver ▸ hreceiver
        have hpart : t.Holds part := by
          cases hs : t.skipParentheses e with
          | none => rw [hs] at hbefore; cases hbefore
          | some x => exact Chain.holds_receiver ht (hs ▸ hbefore)
        refine (ih hpart hlink).imp_right fun hmem => List.mem_cons_of_mem _ ?_
        rw [hbefore]
        exact hmem

/-! ### Handlers -/

theorem handlerOf_eq (he : t.Holds e) : handlerOf t' o e = handlerOf t o e := by
  have hskip := holds_skipParentheses ht he
  unfold handlerOf
  rw [h.skipParentheses ht he]
  cases hs : t.skipParentheses e with
  | none => rfl
  | some id =>
    have hid : id < t.size := hskip id hs
    obtain ⟨d, d', hdata, hd', halike⟩ := h.data?_of_lt hid
    dsimp only
    rw [h.originOf hid, hd', hdata]
    cases halike with
    | identifier hbound _ =>
      have hsome : (o.symbolAt? (t.originOf id)).isNone = false := by
        rw [Option.isNone_eq_false_iff]; exact hbound
      simp [hsome]
    | _ => rfl

omit ht in
theorem statements?_eq {id : NodeId} (hid : id < t.size) :
    t'.statements? id = t.statements? id := by
  obtain ⟨d, d', hdata, hd', halike⟩ := h.data?_of_lt hid
  unfold Tree.statements?
  rw [hd', hdata]
  cases halike <;> rfl

theorem handlerChains_subset {function : NodeId} (hfunction : function < t.size) :
    handlerChains t' o function ⊆ handlerChains t o function := by
  intro chain hmem
  obtain ⟨hchain, body, hbody, hwhich⟩ := mem_handlerChains.mp hmem
  have hbody : Chain.bodyOf? t function = some body := by
    obtain ⟨k, f, hdata, hbody⟩ := Chain.bodyOf?_eq_some_iff.mp hbody
    exact Chain.bodyOf?_eq_some_iff.mpr ⟨k, f, h.data?_before hfunction hdata rfl, hbody⟩
  have hlt := lt_size_of_bodyOf? ht hbody
  have hbefore {e : NodeId} (he : e < t.size) (h' : isChain t' o (some e) = true) :
      isChain t o (some e) = true := h.isChain_before ht (holds_some.mpr he) h'
  rw [h.statements?_eq hlt] at hwhich
  rcases hwhich with ⟨hnone, rfl⟩ | ⟨list, hlist, statement, hmem, hdata⟩
  · exact mem_handlerChains.mpr ⟨hbefore hlt hchain, body, hbody, .inl ⟨hnone, rfl⟩⟩
  · have hstatement := ht.statement_lt hlist hmem
    have hdata := hdata.imp (h.data?_before hstatement · rfl) (h.data?_before hstatement · rfl)
    have hlt : chain < t.size := by
      rcases hdata with hdata | hdata <;> exact ht.child_lt hdata (by simp [Data.children])
    exact mem_handlerChains.mpr
      ⟨hbefore hlt hchain, body, hbody, .inr ⟨list, hlist, statement, hmem, hdata⟩⟩

omit ht in
theorem isIdentifier_eq {id : NodeId} (hid : id < t.size) :
    t'.isIdentifier id = t.isIdentifier id := by
  obtain ⟨d, d', hdata, hd', halike⟩ := h.data?_of_lt hid
  unfold Tree.isIdentifier
  rw [hd', hdata]
  cases halike <;> rfl

theorem plainParameter?_eq {function : NodeId} (hfunction : function < t.size) :
    plainParameter? t' b function = plainParameter? t b function := by
  obtain ⟨d, d', hdata, hd', halike⟩ := h.data?_of_lt hfunction
  unfold plainParameter?
  rw [hd', hdata]
  cases halike with
  | same =>
    split
    · rfl
    · next parameter _ _ _ _ _ heq =>
      have hparameter : parameter < t.size :=
        ht.child_lt (hdata.trans heq) (by simp [Data.children])
      obtain ⟨q, q', hp, hp', halike⟩ := h.data?_of_lt hparameter
      rw [hp', hp]
      cases halike with
      | same =>
        split
        · next name _ _ heq =>
          rw [h.isIdentifier_eq (ht.child_lt (hp.trans heq) (by simp [Data.children]))]
        · rfl
      | _ => rfl
    · rfl
  | _ => rfl

/-- A tree in which names are spelled anew offers nothing that it did not offer before. -/
theorem offers : Offers o b t t' where
  spine he hlink := h.mem_spineUpTo ht he hlink
  handler he := h.handlerOf_eq ht he
  chains hfunction := h.handlerChains_subset ht hfunction
  parameter hfunction := h.plainParameter?_eq ht hfunction

end

end Respells

/-! ### Spelling a binding anew -/

/-- A node may come to be what is like it. -/
theorem respells_setData {id : NodeId} {d' : Data} (hd : t.data? id = some d)
    (halike : Alike ((o.symbolAt? (t.originOf id)).isSome) d d')
    (hparts : ∀ part ∈ d'.parts, part < t.size) : Respells o t (t.setData id d') where
  size_le := Nat.le_of_eq (Tree.size_setData t id d').symm
  closed ht := by
    have hdata {other : NodeId} {c : Data} (h : (t.setData id d').data? other = some c) :
        (other = id ∧ c = d') ∨ t.data? other = some c := by
      rw [Tree.data?_setData] at h
      split at h
      · next heq =>
        subst heq
        rw [hd] at h
        exact .inl ⟨rfl, (Option.some.inj h).symm⟩
      · exact .inr h
    refine ⟨fun h part hpart => ?_, fun h => ?_⟩
    · rw [Tree.size_setData]
      rcases hdata h with ⟨-, rfl⟩ | h
      · exact hparts part hpart
      · exact ht.part_lt h part hpart
    · rcases hdata h with ⟨rfl, rfl⟩ | h
      · rw [halike.eq_of_after rfl] at hd
        exact ht.inner_lt hd
      · exact ht.inner_lt h
  origin {other} _ := by
    rw [Tree.setData, Tree.node?_modify]
    split
    · cases t.node? other <;> rfl
    · rfl
  data? {other c} hc := by
    rw [Tree.data?_setData, hc]
    split
    · next heq =>
      subst heq
      obtain rfl := Option.some.inj (hd.symm.trans hc)
      exact ⟨d', rfl, halike⟩
    · exact ⟨c, rfl, .same c⟩

/-- A node without parts may be added. -/
theorem respells_add {data : Data} (hparts : data.parts = []) (pos stop : Nat)
    (flags : Syntax.Flags) : Respells o t (t.add data pos stop flags).2 where
  size_le := by simp
  closed ht := by
    refine ⟨fun h part hpart => ?_, fun h => ?_⟩
    · rcases Tree.of_data?_add h with ⟨-, rfl⟩ | ⟨-, h⟩
      · rw [hparts] at hpart
        cases hpart
      · rw [Tree.size_add]
        exact Nat.lt_succ_of_lt (ht.part_lt h part hpart)
    · rcases Tree.of_data?_add h with ⟨-, rfl⟩ | ⟨-, h⟩
      · cases hparts
      · exact ht.inner_lt h
  origin hid := (Tree.Grows.add t data pos stop flags).evolves.origin hid
  data? hd := ⟨_, (Tree.Grows.add t data pos stop flags).data? hd, .same _⟩

theorem respells_addKey (like : NodeId) (text : String) : Respells o t (addKey t like text).2 :=
  respells_add rfl _ _ _

theorem respells_spellKey (ht : t.Closed) (id : NodeId) (key : String) :
    Respells o t (spellKey t id key) := by
  -- The key that is added is the last node, so the node that gets it is one before.
  have hkey {parent : NodeId} {d d' : Data} (hdata : t.data? parent = some d)
      (halike : ∀ p, Alike p d d') (hparts : ∀ part ∈ d'.parts, part = t.size ∨ part ∈ d.parts) :
      Respells o t ((addKey t id key).2.setData parent d') := by
    refine (respells_addKey id key).trans (respells_setData
      ((Tree.data?_add_of_lt _ _ _ _ _ (lt_size_of_data? hdata)).trans hdata) (halike _) ?_)
    intro part hpart
    rw [addKey, Tree.size_add]
    rcases hparts part hpart with rfl | hpart
    · exact Nat.lt_succ_self _
    · exact Nat.lt_succ_of_lt (ht.part_lt hdata part hpart)
  unfold spellKey
  split
  · exact .refl t
  · next parent hparent =>
    split
    · next name hdata =>
      split
      · next heq =>
        refine hkey hdata (fun _ => .property) fun part hpart => ?_
        subst heq
        simpa [Data.parts, Data.children] using hpart
      · exact .refl t
    · next isRest name initializer hdata =>
      split
      · refine hkey hdata (fun _ => .bindingElement) fun part hpart => ?_
        simpa [Data.parts, Data.children] using hpart
      · exact .refl t
    · exact .refl t

/-- A name that belongs to a binding is spelled anew. -/
theorem respells_respell (ht : t.Closed) {old new : String} (hnew : new ∉ Promise.Names.links)
    {id : NodeId} (hid : id < t.size) (hbound : (o.symbolAt? (t.originOf id)).isSome) :
    Respells o t (respell old new t id) := by
  have hkey : Respells o t (spellKey t id old) := respells_spellKey ht id old
  have hbound' : (o.symbolAt? ((spellKey t id old).originOf id)).isSome := by
    rw [hkey.originOf hid]; exact hbound
  unfold respell
  dsimp only
  split
  · next hdata => exact hkey.trans (respells_setData hdata (.identifier hbound' hnew) nofun)
  · next hdata => exact hkey.trans (respells_setData hdata (.privateIdentifier hnew) nofun)
  · exact hkey

/-- The names of bindings are nodes of the tree that are mapped to symbols. -/
def NamesBound (o : Oracle) (b : Table) (t : Tree) : Prop :=
  ∀ id symbol, b.symbol? id = some symbol → ∀ node ∈ symbol.nameNode :: b.referencesOf id,
    node < t.size ∧ (o.symbolAt? (t.originOf node)).isSome

theorem NamesBound.mono (h : NamesBound o b t) (hle : t.size ≤ t'.size)
    (horigin : ∀ {id}, id < t.size → t'.originOf id = t.originOf id) : NamesBound o b t' := by
  intro id symbol hsymbol node hnode
  obtain ⟨hlt, hbound⟩ := h id symbol hsymbol node hnode
  exact ⟨Nat.lt_of_lt_of_le hlt hle, horigin hlt ▸ hbound⟩

/-- Renaming a binding spells names anew. -/
theorem respells_rename (ht : t.Closed) (hbound : NamesBound o b t) (id : SymbolId) {new : String}
    (hnew : new ∉ Promise.Names.links) : Respells o t (rename b t id new) := by
  have hfoldl (old : String) (nodes : List NodeId) (t : Tree) (ht : t.Closed)
      (hnodes : ∀ node ∈ nodes, node < t.size ∧ (o.symbolAt? (t.originOf node)).isSome) :
      Respells o t (nodes.foldl (respell old new) t) := by
    induction nodes generalizing t with
    | nil => exact .refl t
    | cons node nodes ih =>
      obtain ⟨hlt, hsome⟩ := hnodes node List.mem_cons_self
      have hfirst : Respells o t (respell old new t node) := respells_respell ht hnew hlt hsome
      refine hfirst.trans (ih _ (hfirst.closed ht) fun other hother => ?_)
      obtain ⟨hlt, hsome⟩ := hnodes other (List.mem_cons_of_mem node hother)
      exact ⟨Nat.lt_of_lt_of_le hlt hfirst.size_le, hfirst.originOf hlt ▸ hsome⟩
  unfold rename
  split
  · next symbol hsymbol => exact hfoldl _ _ t ht (hbound id symbol hsymbol)
  · exact .refl t

/-- A name with a number is not that of a link. -/
theorem numbered_notMem_links (base : String) (n : Nat) :
    Register.numbered base n ∉ Promise.Names.links := by
  intro hmem
  have hunderscore : '_' ∈ (Register.numbered base n).toList := by simp [Register.numbered]
  simp only [Promise.Names.links, List.mem_cons, List.not_mem_nil, or_false] at hmem
  rcases hmem with heq | heq | heq <;> · rw [heq] at hunderscore; revert hunderscore; decide

/-- Choosing the name of a symbol spells it anew, or leaves the tree as it is. -/
theorem respells_chooseSymbol? {choice choice' : Choice} {id : SymbolId} (ht : choice.tree.Closed)
    (hbound : NamesBound o b choice.tree) (h : chooseSymbol? b choice id = some choice') :
    Respells o choice.tree choice'.tree := by
  obtain ⟨symbol, -, h⟩ := Option.bind_eq_some_iff.mp h
  obtain ⟨⟨name, register⟩, hreserve, h⟩ := Option.bind_eq_some_iff.mp h
  obtain ⟨hfree, -⟩ := Register.reserve?_eq_some_iff.mp hreserve
  obtain rfl := Option.some.inj h
  dsimp only
  split
  · exact .refl _
  · next hname =>
    refine respells_rename ht hbound id ?_
    unfold Register.freeName? at hfree
    split at hfree
    · obtain ⟨n, -, rfl⟩ := Option.map_eq_some_iff.mp hfree
      exact numbered_notMem_links _ _
    · exact absurd (Option.some.inj hfree).symm hname

theorem respells_foldlM_chooseSymbol? {ids : List SymbolId} {choice choice' : Choice}
    (ht : choice.tree.Closed) (hbound : NamesBound o b choice.tree)
    (h : ids.foldlM (chooseSymbol? b) choice = some choice') :
    Respells o choice.tree choice'.tree := by
  induction ids generalizing choice with
  | nil =>
    obtain rfl := Option.some.inj h
    exact .refl _
  | cons id rest ih =>
    rw [List.foldlM_cons] at h
    obtain ⟨middle, hstep, hrest⟩ := Option.bind_eq_some_iff.mp h
    have hfirst := respells_chooseSymbol? ht hbound hstep
    exact hfirst.trans (ih (hfirst.closed ht) (hbound.mono hfirst.size_le hfirst.originOf) hrest)

/-- The tree in which the names are chosen has the nodes of the tree before, spelled anew. -/
theorem respells_choose? {source : Tree} {function : NodeId} {chains : List NodeId}
    {register : Register} (ht : t.Closed) (hbound : NamesBound o b t)
    (h : choose? source b o function chains t = some (register, t')) : Respells o t t' := by
  obtain ⟨outer, -, h⟩ := Option.bind_eq_some_iff.mp h
  obtain ⟨choice, hchoice, h⟩ := Option.bind_eq_some_iff.mp h
  obtain ⟨entered, -, h⟩ := Option.bind_eq_some_iff.mp h
  obtain ⟨-, rfl⟩ := Prod.mk.inj (Option.some.inj h)
  exact @respells_foldlM_chooseSymbol? _ _ _ ⟨_, t, []⟩ _ ht hbound hchoice

end Unchain.Naming
