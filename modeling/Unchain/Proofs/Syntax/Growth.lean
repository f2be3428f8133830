import Unchain.Syntax.Scope

/-!
# Growing trees

Conversions add nodes to a tree and change next to nothing of what is there.
`Evolves` allows what they do change: a return may come to await its expression,
and nodes may get other parents. `Grows` allows the parents only.

A tree is *closed* if its nodes refer to nodes of the tree and parentheses to
older ones. What a closed tree says about an expression is then still true
after it has evolved (`Evolves.skipParentheses`, `Evolves.originOf`).
-/

namespace Unchain.Syntax

namespace Data

/-- The data without the expression that a return holds. -/
def shape : Data → Data
  | leave .returns (some _) => leave .returns (some 0)
  | data => data

theorem shape_of_ne {d : Data} (hd : ∀ e, d ≠ leave .returns (some e)) : d.shape = d := by
  unfold shape
  split
  · next e => exact absurd rfl (hd e)
  · rfl

/-- Data that is no return is its own shape. -/
theorem eq_of_shape_eq {d d' : Data} (h : d'.shape = d.shape)
    (hd : ∀ e, d ≠ leave .returns (some e)) : d' = d := by
  rw [shape_of_ne hd] at h
  by_cases hd' : ∃ e, d' = leave .returns (some e)
  · obtain ⟨e, rfl⟩ := hd'
    exact absurd h.symm (hd 0)
  · rwa [shape_of_ne fun e he => hd' ⟨e, he⟩] at h

/-- What is read as a child of a node is a part of it. -/
theorem mem_parts_of_mem_children {d : Data} {child : NodeId} (h : child ∈ d.children) :
    child ∈ d.parts := by
  cases d <;> first | exact h | exact List.mem_append_left _ h

end Data

namespace Tree

/-- The node is the expression `e` with `await` in front of it, any number of times. -/
inductive Awaits (t : Tree) (e : NodeId) : NodeId → Prop
  | refl : Awaits t e e
  | step {id inner : NodeId} : t.data? id = some (.unary .await (some inner)) →
      Awaits t e inner → Awaits t e id

/-- `t'` has the nodes of `t`, but returns may await their expressions. -/
structure Evolves (t t' : Tree) : Prop where
  node : ∀ {id : NodeId} {n : Node}, t.node? id = some n →
    ∃ n', t'.node? id = some n' ∧ n'.data.shape = n.data.shape ∧
      n'.flags = n.flags ∧ n'.origin = n.origin
  returns : ∀ {id e : NodeId}, t.data? id = some (.leave .returns (some e)) →
    ∃ e', t'.data? id = some (.leave .returns (some e')) ∧ Awaits t' e e'

/-- `t'` has the nodes of `t`, but they may have other parents. -/
structure Grows (t t' : Tree) : Prop where
  node : ∀ {id : NodeId} {n : Node}, t.node? id = some n →
    ∃ p, t'.node? id = some { n with parent := p }

/-- The nodes of `t` refer to nodes of `t`, and parentheses to older ones. -/
structure Closed (t : Tree) : Prop where
  part_lt : ∀ {id : Nat} {d : Data}, t.data? id = some d →
    ∀ part ∈ d.parts, (part : Nat) < t.size
  inner_lt : ∀ {id e : Nat}, t.data? id = some (.parenthesized (some e)) → e < id

/-- A part that is there is a node of the tree. -/
def Holds (t : Tree) (e : Option NodeId) : Prop := ∀ id, e = some id → id < t.size

/-! ### Nodes and their numbers -/

@[simp] theorem holds_none (t : Tree) : t.Holds none := fun _ h => nomatch h

@[simp] theorem holds_some {t : Tree} {id : NodeId} : t.Holds (some id) ↔ id < t.size :=
  ⟨fun h => h id rfl, fun h _ he => Option.some.inj he ▸ h⟩

/-- Trees with the same nodes are the same. -/
theorem eq_of_nodes {t t' : Tree} (h : t.nodes = t'.nodes) : t = t' := by
  cases t
  cases t'
  exact congrArg mk h

theorem node?_eq_some_of_lt {t : Tree} {id : NodeId} (h : id < t.size) :
    ∃ n, t.node? id = some n :=
  ⟨t.nodes[id], Array.getElem?_eq_getElem h⟩

theorem lt_size_of_node? {t : Tree} {id : NodeId} {n : Node}
    (h : t.node? id = some n) : id < t.size := by
  obtain ⟨hlt, -⟩ := Array.getElem?_eq_some_iff.mp h
  exact hlt

theorem lt_size_of_data? {t : Tree} {id : NodeId} {d : Data}
    (h : t.data? id = some d) : id < t.size := by
  obtain ⟨n, hn, -⟩ := Option.map_eq_some_iff.mp h
  exact lt_size_of_node? hn

theorem data?_of_node? {t : Tree} {id : NodeId} {n : Node}
    (h : t.node? id = some n) : t.data? id = some n.data := by
  rw [data?, h]
  rfl

/-- Whether the parts of a node are nodes of a tree with `size` nodes, and what it puts in
parentheses is older. -/
def closesAt (size id : Nat) (d : Data) : Bool :=
  d.parts.all (fun part => Nat.blt part size) &&
    match d with
    | .parenthesized (some e) => Nat.blt e id
    | _ => true

/-- Whether a tree is closed can be seen from its nodes. -/
theorem closed_iff (t : Tree) :
    t.Closed ↔ (List.range t.size).all (fun id => (t.data? id).all (closesAt t.size id)) := by
  rw [List.all_eq_true]
  constructor
  · intro h id hid
    cases hd : t.data? id with
    | none => rfl
    | some d =>
        have hparts : d.parts.all (fun part => Nat.blt part t.size) = true :=
          List.all_eq_true.mpr fun part hpart => Nat.blt_eq.mpr (h.part_lt hd part hpart)
        unfold closesAt
        rw [Option.all_some, hparts, Bool.true_and]
        split
        · exact Nat.blt_eq.mpr (h.inner_lt hd)
        · rfl
  · intro h
    have hat : ∀ {id d}, t.data? id = some d → closesAt t.size id d = true := by
      intro id d hd
      have hid := h id (List.mem_range.mpr (lt_size_of_data? hd))
      rwa [hd] at hid
    refine ⟨fun {id d} hd part hpart => ?_, fun {id e} hd => ?_⟩
    · exact Nat.blt_eq.mp (List.all_eq_true.mp (Bool.and_eq_true_iff.mp (hat hd)).1 part hpart)
    · exact Nat.blt_eq.mp (Bool.and_eq_true_iff.mp (hat hd)).2

instance (t : Tree) : Decidable t.Closed := decidable_of_iff' _ (closed_iff t)

/-! ### Growing -/

namespace Grows

theorem refl (t : Tree) : Grows t t := ⟨fun {_ n} h => ⟨n.parent, h⟩⟩

theorem trans {a b c : Tree} (h : Grows a b) (h' : Grows b c) : Grows a c := by
  refine ⟨fun {id n} hn => ?_⟩
  obtain ⟨p, hp⟩ := h.node hn
  obtain ⟨q, hq⟩ := h'.node hp
  exact ⟨q, hq⟩

theorem data? {t t' : Tree} (h : Grows t t') {id : NodeId} {d : Data}
    (hd : t.data? id = some d) : t'.data? id = some d := by
  obtain ⟨n, hn, rfl⟩ := Option.map_eq_some_iff.mp hd
  obtain ⟨p, hp⟩ := h.node hn
  rw [data?_of_node? hp]

theorem evolves {t t' : Tree} (h : Grows t t') : Evolves t t' := by
  refine ⟨fun {id n} hn => ?_, fun {id e} hd => ⟨e, h.data? hd, .refl⟩⟩
  obtain ⟨p, hp⟩ := h.node hn
  exact ⟨_, hp, rfl, rfl, rfl⟩

theorem setParent (t : Tree) (id parent : NodeId) : Grows t (t.setParent id parent) := by
  refine ⟨fun {other n} hn => ?_⟩
  simp only [Tree.setParent, node?_modify, hn]
  split
  · exact ⟨some parent, rfl⟩
  · exact ⟨n.parent, rfl⟩

theorem foldl_setParent (parts : List NodeId) (t : Tree) (parent : NodeId) :
    Grows t (parts.foldl (fun t part => t.setParent part parent) t) := by
  induction parts generalizing t with
  | nil => exact refl t
  | cons part parts ih => exact (setParent t part parent).trans (ih _)

theorem add (t : Tree) (data : Data) (pos stop : Nat) (flags : Flags) :
    Grows t (t.add data pos stop flags).2 := by
  refine trans (b := ⟨t.nodes.push { data, flags, pos, stop }⟩) ⟨fun {id n} hn => ?_⟩
    (foldl_setParent _ _ _)
  have hlt : id < t.nodes.size := lt_size_of_node? hn
  refine ⟨n.parent, ?_⟩
  rw [← hn, Tree.node?, Tree.node?, Array.getElem?_push_lt hlt, Array.getElem?_eq_getElem hlt]

/-- A new node holds what was given, and has these marks. -/
theorem node?_add_self (t : Tree) (data : Data) (pos stop : Nat) (flags : Flags) :
    ∃ p, (t.add data pos stop flags).2.node? t.size =
      some { data, flags, pos, stop, parent := p } := by
  have hpush : (Tree.mk (t.nodes.push { data, flags, pos, stop })).node? t.size =
      some { data, flags, pos, stop } := Array.getElem?_push_size
  obtain ⟨p, hp⟩ := (foldl_setParent data.parts _ t.size).node hpush
  exact ⟨p, hp⟩

end Grows

/-- After a node was added, a node is the new one or holds what it held. -/
theorem of_data?_add {t : Tree} {data d : Data} {pos stop : Nat} {flags : Flags} {id : NodeId}
    (h : (t.add data pos stop flags).2.data? id = some d) :
    (id = t.size ∧ d = data) ∨ (id < t.size ∧ t.data? id = some d) := by
  have hlt := lt_size_of_data? h
  rw [size_add] at hlt
  rcases Nat.lt_or_eq_of_le (Nat.le_of_lt_succ hlt) with hold | rfl
  · rw [data?_add_of_lt _ _ _ _ _ hold] at h
    exact .inr ⟨hold, h⟩
  · rw [data?_add_self] at h
    exact .inl ⟨rfl, (Option.some.inj h).symm⟩

theorem Awaits.trans {t : Tree} {e e' e'' : NodeId} (h : Awaits t e e') (h' : Awaits t e' e'') :
    Awaits t e e'' := by
  induction h' with
  | refl => exact h
  | step hd _ ih => exact .step hd ih

namespace Evolves

theorem refl (t : Tree) : Evolves t t :=
  ⟨fun {_ n} h => ⟨n, h, rfl, rfl, rfl⟩, fun {_ e} h => ⟨e, h, .refl⟩⟩

theorem size_le {t t' : Tree} (h : Evolves t t') : t.size ≤ t'.size := by
  refine Nat.le_of_not_lt fun hlt => ?_
  obtain ⟨n, hn⟩ := node?_eq_some_of_lt hlt
  obtain ⟨n', hn', -⟩ := h.node hn
  exact absurd (lt_size_of_node? hn') (Nat.lt_irrefl _)

/-- Nodes that are no returns keep their data. -/
theorem data? {t t' : Tree} (h : Evolves t t') {id : NodeId} {d : Data}
    (hd : t.data? id = some d) (hr : ∀ e, d ≠ .leave .returns (some e)) :
    t'.data? id = some d := by
  obtain ⟨n, hn, rfl⟩ := Option.map_eq_some_iff.mp hd
  obtain ⟨n', hn', hshape, -⟩ := h.node hn
  rw [data?_of_node? hn', Data.eq_of_shape_eq hshape hr]

theorem awaits {t t' : Tree} (h : Evolves t t') {e id : NodeId} (ha : Awaits t e id) :
    Awaits t' e id := by
  induction ha with
  | refl => exact .refl
  | step hd _ ih => exact .step (h.data? hd nofun) ih

theorem trans {a b c : Tree} (h : Evolves a b) (h' : Evolves b c) : Evolves a c := by
  refine ⟨fun {id n} hn => ?_, fun {id e} hd => ?_⟩
  · obtain ⟨m, hm, hshape, hflags, horigin⟩ := h.node hn
    obtain ⟨k, hk, hshape', hflags', horigin'⟩ := h'.node hm
    exact ⟨k, hk, hshape'.trans hshape, hflags'.trans hflags, horigin'.trans horigin⟩
  · obtain ⟨e', hd', ha⟩ := h.returns hd
    obtain ⟨e'', hd'', ha'⟩ := h'.returns hd'
    exact ⟨e'', hd'', (h'.awaits ha).trans ha'⟩

/-- A node keeps its data, or it is a return before and after. -/
theorem data?_cases {t t' : Tree} (h : Evolves t t') {id : NodeId} (hid : id < t.size) :
    t'.data? id = t.data? id ∨
      ∃ e e', t.data? id = some (.leave .returns (some e)) ∧
        t'.data? id = some (.leave .returns (some e')) := by
  obtain ⟨n, hn⟩ := node?_eq_some_of_lt hid
  have hd := data?_of_node? hn
  by_cases hr : ∃ e, n.data = .leave .returns (some e)
  · obtain ⟨e, he⟩ := hr
    rw [he] at hd
    obtain ⟨e', he', -⟩ := h.returns hd
    exact .inr ⟨e, e', hd, he'⟩
  · rw [hd]
    exact .inl (h.data? hd fun e he => hr ⟨e, he⟩)

/-- A node that is no return was the same before. -/
theorem data?_before {t t' : Tree} (h : Evolves t t') {id : NodeId} {d : Data} (hid : id < t.size)
    (hd : t'.data? id = some d) (hr : ∀ e, d ≠ .leave .returns (some e)) : t.data? id = some d := by
  rcases h.data?_cases hid with hsame | ⟨e, e', -, hafter⟩
  · exact hsame.symm.trans hd
  · exact absurd (Option.some.inj (hd.symm.trans hafter)) (hr e')

theorem origin {t t' : Tree} (h : Evolves t t') {id : NodeId} (hid : id < t.size) :
    (t'.node? id).bind Node.origin = (t.node? id).bind Node.origin := by
  obtain ⟨n, hn⟩ := node?_eq_some_of_lt hid
  obtain ⟨n', hn', -, -, horigin⟩ := h.node hn
  rw [hn, hn']
  exact horigin

end Evolves

/-- A return may come to await its expression. -/
theorem Evolves.setData_returns {t : Tree} {id e awaited : NodeId}
    (hd : t.data? id = some (.leave .returns (some e)))
    (ha : t.data? awaited = some (.unary .await (some e))) :
    Evolves t (t.setData id (.leave .returns (some awaited))) := by
  have hne : id ≠ awaited := by
    rintro rfl
    rw [hd] at ha
    cases ha
  have hself : (t.setData id (.leave .returns (some awaited))).data? id =
      some (.leave .returns (some awaited)) := by
    rw [data?_setData, if_pos rfl, hd]
    rfl
  refine ⟨fun {other n} hn => ?_, fun {other e'} hd' => ?_⟩
  · rw [setData, node?_modify, hn]
    by_cases hother : id = other
    · subst hother
      rw [data?_of_node? hn] at hd
      exact ⟨_, if_pos rfl, by rw [Option.some.inj hd]; rfl, rfl, rfl⟩
    · exact ⟨n, if_neg hother, rfl, rfl, rfl⟩
  · by_cases hother : id = other
    · subst hother
      obtain rfl : e = e' := by simpa using hd.symm.trans hd'
      refine ⟨awaited, hself, .step ?_ .refl⟩
      rw [data?_setData, if_neg hne, ha]
    · exact ⟨e', by rw [data?_setData, if_neg hother, hd'], .refl⟩

/-! ### Looking through parentheses -/

@[simp] theorem skipParentheses_none (t : Tree) : t.skipParentheses none = none := by
  unfold skipParentheses
  rw [skipParentheses.go]
  rfl

theorem skipParentheses_go_none (t : Tree) (fuel : Nat) :
    skipParentheses.go t fuel none = none := by
  cases fuel with
  | zero => rfl
  | succ fuel => rfl

/-- In a closed tree the fuel of `skipParentheses` suffices, and what it finds stays. -/
theorem skipParentheses_go_eq {t t' : Tree} (h : Evolves t t') (ht : t.Closed) :
    ∀ id fuel fuel' : Nat, id < t.size → id < fuel → id < fuel' →
      skipParentheses.go t' fuel (some id) = skipParentheses.go t fuel' (some id) := by
  intro id
  induction id using Nat.strongRecOn with
  | ind id ih =>
      intro fuel fuel' hid hfuel hfuel'
      obtain ⟨n, rfl⟩ : ∃ n, fuel = n + 1 := ⟨fuel - 1, by omega⟩
      obtain ⟨m, rfl⟩ : ∃ m, fuel' = m + 1 := ⟨fuel' - 1, by omega⟩
      simp only [skipParentheses.go, partData?, Option.bind_some]
      rcases h.data?_cases hid with hd | ⟨e, e', hd, hd'⟩
      · rw [hd]
        split
        · next e he =>
          cases e with
          | none => rw [skipParentheses_go_none, skipParentheses_go_none]
          | some e =>
              have hlt := ht.inner_lt he
              exact ih e hlt n m (by omega) (by omega) (by omega)
        · rfl
      · rw [hd, hd']

/-- What stands in parentheses is looked through as what stands outside. -/
theorem skipParentheses_parenthesized {t : Tree} (ht : t.Closed) {id : Nat}
    {e : Option NodeId} (h : t.data? id = some (.parenthesized e)) :
    t.skipParentheses (some id) = t.skipParentheses e := by
  have hid : id < t.size := lt_size_of_data? h
  have hstep : t.skipParentheses (some id) = skipParentheses.go t t.size e := by
    have hpart : t.partData? (some id) = some (.parenthesized e) := h
    rw [skipParentheses, skipParentheses.go, hpart]
  rw [hstep]
  cases e with
  | none => rw [skipParentheses_none, skipParentheses_go_none]
  | some e =>
      have hlt := ht.inner_lt h
      exact skipParentheses_go_eq (Evolves.refl t) ht e _ _ (by omega) (by omega) (by omega)

theorem skipParentheses_of_ne {t : Tree} {id : NodeId}
    (h : ∀ e, t.data? id ≠ some (.parenthesized e)) :
    t.skipParentheses (some id) = some id := by
  unfold skipParentheses
  rw [skipParentheses.go]
  split
  · next e he => exact absurd he (h e)
  · rfl

/-- What is left after skipping parentheses stands in none. -/
theorem skipParentheses_eq_some {t : Tree} (ht : t.Closed) {e : Option NodeId} {id : NodeId}
    (h : t.skipParentheses e = some id) : ∀ e', t.data? id ≠ some (.parenthesized e') := by
  cases e with
  | none => simp at h
  | some e =>
      induction e using Nat.strongRecOn with
      | ind e ih =>
          by_cases hp : ∃ e', t.data? e = some (.parenthesized e')
          · obtain ⟨e', he'⟩ := hp
            rw [skipParentheses_parenthesized ht he'] at h
            cases e' with
            | none => simp at h
            | some e' => exact ih e' (ht.inner_lt he') h
          · have hne : ∀ e', t.data? e ≠ some (.parenthesized e') := fun e' he' => hp ⟨e', he'⟩
            rw [skipParentheses_of_ne hne] at h
            obtain rfl := Option.some.inj h
            exact hne

theorem holds_skipParentheses {t : Tree} (ht : t.Closed) {e : Option NodeId}
    (he : t.Holds e) : t.Holds (t.skipParentheses e) := by
  cases e with
  | none => simp
  | some e =>
      induction e using Nat.strongRecOn with
      | ind e ih =>
          by_cases hp : ∃ e', t.data? e = some (.parenthesized e')
          · obtain ⟨e', he'⟩ := hp
            rw [skipParentheses_parenthesized ht he']
            cases e' with
            | none => simp
            | some e' =>
                have hlt := ht.inner_lt he'
                exact ih e' hlt (holds_some.mpr (Nat.lt_trans hlt (holds_some.mp he)))
          · rw [skipParentheses_of_ne fun e' he' => hp ⟨e', he'⟩]
            exact he

/-- Skipping parentheses twice is skipping them once. -/
theorem Evolves.skipParentheses {t t' : Tree} (h : Evolves t t') (ht : t.Closed)
    {e : Option NodeId} (he : t.Holds e) : t'.skipParentheses e = t.skipParentheses e := by
  cases e with
  | none => simp
  | some id =>
      have hid : Nat.lt id t.size := holds_some.mp he
      have hle : t.size ≤ t'.size := h.size_le
      exact skipParentheses_go_eq h ht id _ _ hid
        (Nat.lt_succ_of_lt (Nat.lt_of_lt_of_le hid hle)) (Nat.lt_succ_of_lt hid)

/-! ### Other questions about expressions -/

/-- Origins only get older, so there is enough fuel to follow them. -/
theorem originOf_go_eq {t t' : Tree} (h : ∀ {id}, id < t.size →
      (t'.node? id).bind Node.origin = (t.node? id).bind Node.origin) :
    ∀ id fuel fuel' : Nat, id < t.size → id < fuel → id < fuel' →
      originOf.go t' fuel id = originOf.go t fuel' id := by
  intro id
  induction id using Nat.strongRecOn with
  | ind id ih =>
      intro fuel fuel' hid hfuel hfuel'
      obtain ⟨n, rfl⟩ : ∃ n, fuel = n + 1 := ⟨fuel - 1, by omega⟩
      obtain ⟨m, rfl⟩ : ∃ m, fuel' = m + 1 := ⟨fuel' - 1, by omega⟩
      simp only [originOf.go]
      rw [h hid]
      split
      · next earlier _ =>
        by_cases hlt : Nat.lt earlier id
        · have hlt' : earlier < id := hlt
          rw [if_pos hlt', if_pos hlt']
          exact ih earlier hlt n m (Nat.lt_trans hlt hid)
            (Nat.lt_of_lt_of_le hlt (Nat.le_of_lt_succ hfuel))
            (Nat.lt_of_lt_of_le hlt (Nat.le_of_lt_succ hfuel'))
        · have hlt' : ¬ earlier < id := hlt
          rw [if_neg hlt', if_neg hlt']
      · rfl

/-- In a larger tree in which the nodes were made from the same nodes, their origins are the
same. -/
theorem originOf_eq {t t' : Tree} (hle : t.size ≤ t'.size) (h : ∀ {id}, id < t.size →
      (t'.node? id).bind Node.origin = (t.node? id).bind Node.origin) {id : Nat}
    (hid : id < t.size) : t'.originOf id = t.originOf id :=
  originOf_go_eq h id _ _ hid (Nat.lt_of_lt_of_le hid hle) hid

theorem Evolves.originOf {t t' : Tree} (h : Evolves t t') {id : Nat} (hid : id < t.size) :
    t'.originOf id = t.originOf id :=
  originOf_eq h.size_le h.origin hid

/-- A part keeps its data, or it is a return before and after. -/
theorem Evolves.partData?_cases {t t' : Tree} (h : Evolves t t') {e : Option NodeId}
    (he : t.Holds e) :
    t'.partData? e = t.partData? e ∨
      ∃ x x', t.partData? e = some (.leave .returns (some x)) ∧
        t'.partData? e = some (.leave .returns (some x')) := by
  cases e with
  | none => exact .inl rfl
  | some id => exact h.data?_cases (holds_some.mp he)

theorem Evolves.identifierText? {t t' : Tree} (h : Evolves t t') {e : Option NodeId}
    (he : t.Holds e) : t'.identifierText? e = t.identifierText? e := by
  unfold Tree.identifierText?
  rcases h.partData?_cases he with hd | ⟨x, x', hd, hd'⟩
  · rw [hd]
  · rw [hd, hd']

theorem lt_size_of_statements? {t : Tree} {id : NodeId} {list : NodeList}
    (h : t.statements? id = some list) : id < t.size := by
  unfold statements? at h
  split at h
  case h_4 => cases h
  all_goals exact lt_size_of_data? ‹_›

theorem Evolves.statements? {t t' : Tree} (h : Evolves t t') {id : NodeId}
    (hid : id < t.size) : t'.statements? id = t.statements? id := by
  unfold Tree.statements?
  rcases h.data?_cases hid with hd | ⟨x, x', hd, hd'⟩
  · rw [hd]
  · rw [hd, hd']

theorem Evolves.isSideEffectFree {t t' : Tree} (h : Evolves t t') (ht : t.Closed)
    {e : Option NodeId} (he : t.Holds e) : t'.isSideEffectFree e = t.isSideEffectFree e := by
  unfold Tree.isSideEffectFree
  rw [h.skipParentheses ht he]
  rcases h.partData?_cases (holds_skipParentheses ht he) with hd | ⟨x, x', hd, hd'⟩
  · rw [hd]
  · rw [hd, hd']

theorem Evolves.isIdentifier {t t' : Tree} (h : Evolves t t') {id : NodeId}
    (hid : id < t.size) : t'.isIdentifier id = t.isIdentifier id := by
  unfold Tree.isIdentifier
  rcases h.data?_cases hid with hd | ⟨x, x', hd, hd'⟩
  · rw [hd]
  · rw [hd, hd']
    rfl

end Tree

end Unchain.Syntax
