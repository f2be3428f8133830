import Unchain.Naming.Handlers
import Unchain.Proofs.Syntax.Growth

/-!
# Links stay what they are

What a closed tree says about the links and the handlers of a chain is still
true after the tree has evolved.
-/

namespace Unchain

open Binding (Table)
open Promise (Oracle)
open Syntax (Data NodeId NodeList Tree)
open Syntax.Tree (Evolves holds_skipParentheses holds_some lt_size_of_data?)

namespace Syntax.Tree

theorem Closed.child_lt {t : Tree} (ht : t.Closed) {id : NodeId} {d : Data}
    (h : t.data? id = some d) {part : NodeId} (hpart : part ∈ d.children) :
    part < t.size :=
  ht.part_lt h part (Data.mem_parts_of_mem_children hpart)

theorem statements?_sublist {t : Tree} {block : NodeId} {list : NodeList}
    (h : t.statements? block = some list) : list.nodes.Sublist (t.children block) := by
  unfold statements? at h
  rw [children]
  split at h
  · next hdata => cases h; rw [hdata]; exact .refl _
  · next hdata => cases h; rw [hdata]; exact List.sublist_append_right ..
  · next hdata => cases h; rw [hdata]; exact .refl _
  · cases h

/-- The statements of a block of a closed tree are nodes of the tree. -/
theorem Closed.statement_lt {t : Tree} (ht : t.Closed) {block : NodeId} {list : NodeList}
    (h : t.statements? block = some list) {statement : NodeId} (hmem : statement ∈ list.nodes) :
    statement < t.size := by
  have hchild := (statements?_sublist h).subset hmem
  cases hdata : t.data? block with
  | none => simp [children, hdata] at hchild
  | some d => exact ht.child_lt hdata (by simpa [children, hdata] using hchild)

/-- The parts of a node of a closed tree are nodes of the tree. -/
theorem Closed.holds_child {t : Tree} (ht : t.Closed) {e : Option NodeId} {d : Data}
    (h : t.partData? e = some d) {part : Option NodeId}
    (hpart : ∀ id, part = some id → id ∈ d.children) : t.Holds part := by
  obtain ⟨id, -, hd⟩ := Option.bind_eq_some_iff.mp h
  exact fun x hx => ht.child_lt hd (hpart x hx)

end Syntax.Tree

namespace Chain

/-! ### Links -/

theorem isPromise_evolves {t t' : Tree} (h : Evolves t t') (o : Oracle) {e : Option NodeId}
    (he : t.Holds e) : isPromise t' o e = isPromise t o e := by
  cases e with
  | none => rfl
  | some id =>
      simp only [isPromise, Option.any_some]
      rw [h.originOf (holds_some.mp he)]

theorem linkOfMethod_evolves {t t' : Tree} (h : Evolves t t') (callee receiver : NodeId)
    (method : String) {arguments : List NodeId} (hargs : ∀ a ∈ arguments, a < t.size) :
    linkOfMethod t' callee receiver method arguments =
      linkOfMethod t callee receiver method arguments := by
  unfold linkOfMethod
  refine congrArg (fun spread : Bool => if spread = true then Link.promise else _) ?_
  induction arguments with
  | nil => rfl
  | cons a rest ih =>
      rw [List.any_cons, List.any_cons, ih fun b hb => hargs b (List.mem_cons_of_mem _ hb)]
      rcases h.data?_cases (hargs a List.mem_cons_self) with hd | ⟨x, x', hd, hd'⟩
      · rw [hd]
      · rw [hd, hd']

theorem methodLink?_evolves {t t' : Tree} (h : Evolves t t') (ht : t.Closed) (o : Oracle)
    {callee : Option NodeId} (hcallee : t.Holds callee)
    {arguments : List NodeId} (hargs : ∀ a ∈ arguments, a < t.size) :
    methodLink? t' o callee arguments = methodLink? t o callee arguments := by
  have hskip : t.Holds (t.skipParentheses callee) := holds_skipParentheses ht hcallee
  unfold methodLink?
  rw [h.skipParentheses ht hcallee]
  rcases h.partData?_cases hskip with hd | ⟨x, x', hd, hd'⟩
  · rw [hd]
    split
    · next receiver name _ hdata =>
      have hname : t.Holds name := ht.holds_child hdata (by simp +contextual [Data.children])
      have hreceiver : t.Holds receiver :=
        ht.holds_child hdata (by simp +contextual [Data.children])
      rw [h.identifierText? hname]
      cases t.identifierText? name with
      | none => rfl
      | some method =>
          cases receiver with
          | none => rfl
          | some receiver =>
              simp only [Option.bind_eq_bind, Option.bind_some]
              rw [isPromise_evolves h o hreceiver, linkOfMethod_evolves h _ _ _ hargs]
    · rfl
  · rw [hd, hd']
    cases t.skipParentheses callee <;> rfl

/-- A link of a closed tree stays what it is. -/
theorem linkOf_evolves {t t' : Tree} (h : Evolves t t') (ht : t.Closed) (o : Oracle)
    {e : Option NodeId} (he : t.Holds e) : linkOf t' o e = linkOf t o e := by
  unfold linkOf
  rw [isPromise_evolves h o he]
  rcases h.partData?_cases he with hd | ⟨x, x', hd, hd'⟩
  · rw [hd]
    cases hdata : t.partData? e with
    | none => rfl
    | some data =>
        cases data with
        | call kind callee types arguments =>
            cases kind with
            | new => rfl
            | call =>
                have hcallee : t.Holds callee :=
                  ht.holds_child hdata (by simp +contextual [Data.children])
                have hargs : ∀ a ∈ Data.listNodes arguments, a < t.size := by
                  intro a ha
                  have hpart : t.Holds (some a) :=
                    ht.holds_child hdata (by simp +contextual [Data.children, ha])
                  exact holds_some.mp hpart
                simp only []
                rw [methodLink?_evolves h ht o hcallee hargs]
        | access kind => cases kind <;> rfl
        | _ => rfl
  · rw [hd, hd']

/-! ### Handlers -/

theorem handlerOf_evolves {t t' : Tree} (h : Evolves t t') (ht : t.Closed) (o : Oracle)
    {argument : Option NodeId} (harg : t.Holds argument) :
    handlerOf t' o argument = handlerOf t o argument := by
  have hskip : t.Holds (t.skipParentheses argument) := holds_skipParentheses ht harg
  unfold handlerOf
  rw [h.skipParentheses ht harg]
  cases hs : t.skipParentheses argument with
  | none => rfl
  | some id =>
      have hid : id < t.size := hskip id hs
      simp only []
      rw [h.originOf hid]
      rcases h.data?_cases hid with hd | ⟨x, x', hd, hd'⟩
      · rw [hd]
      · rw [hd, hd']

theorem isChain_evolves {t t' : Tree} (h : Evolves t t') (ht : t.Closed) (o : Oracle)
    {e : Option NodeId} (he : t.Holds e) : isChain t' o e = isChain t o e := by
  unfold isChain
  rw [h.skipParentheses ht he, linkOf_evolves h ht o (holds_skipParentheses ht he)]

end Chain

namespace Naming

theorem plainParameter?_evolves {t t' : Tree} (h : Evolves t t') (ht : t.Closed) (b : Table)
    {function : NodeId} (hf : function < t.size) :
    plainParameter? t' b function = plainParameter? t b function := by
  unfold plainParameter?
  rcases h.data?_cases hf with hd | ⟨x, x', hd, hd'⟩
  · rw [hd]
    split
    · rfl
    · next parameter _ _ _ _ _ hdata =>
      have hparameter : parameter < t.size := ht.child_lt hdata (by simp [Data.children])
      rcases h.data?_cases hparameter with hp | ⟨x, x', hp, hp'⟩
      · rw [hp]
        split
        · next name _ _ hparts =>
          have hname : name < t.size := ht.child_lt hparts (by simp [Data.children])
          rw [h.isIdentifier hname]
        · rfl
      · rw [hp, hp']
    · rfl
  · rw [hd, hd']

end Naming

theorem Promise.functionParameter?_evolves {t t' : Tree} (h : Evolves t t') (ht : t.Closed)
    {function : NodeId} (hf : function < t.size) :
    functionParameter? t' function = functionParameter? t function := by
  unfold functionParameter?
  rcases h.data?_cases hf with hd | ⟨x, x', hd, hd'⟩
  · rw [hd]
    split
    · next f hdata =>
      cases hhead : f.parameters.nodes.head? with
      | none => rfl
      | some parameter =>
          have hparameter : parameter < t.size := by
            refine ht.child_lt hdata ?_
            simp [Data.children, List.mem_of_head? hhead]
          rw [Option.bind_some, Option.bind_some]
          rcases h.data?_cases hparameter with hp | ⟨x, x', hp, hp'⟩
          · rw [hp]
            split
            · next p hparts =>
              exact h.identifierText? (ht.holds_child (e := some parameter) hparts
                (by simp +contextual [Data.children]))
            · rfl
          · rw [hp, hp']
    · rfl
  · rw [hd, hd']

end Unchain
