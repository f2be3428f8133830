import Unchain.Proofs.Chain.Spine

/-!
# Marking the links of a chain

Before a chain is unrolled, its links are entered as having a successor or not
(`Successors.mark`). `Marked` says what has to come out of that: the value of a
link is consumed if a function around it takes it. `marked_mark` shows that it
does, for a chain whose nodes are distinct.
-/

namespace Unchain.Chain

open Binding (Table)
open Promise (Oracle)
open Syntax (NodeId Tree)

/-- The links and the leaf of a chain are marked as their place in the chain requires. -/
def Marked (s : Successors) (leaf : NodeId) : Bool → List Layer → Prop
  | consumed, [] => s.has leaf = consumed
  | consumed, layer :: layers =>
    s.has layer.link = consumed ∧ Marked s leaf (consumed || layer.form.consumes) layers

/-- The links of a chain and its leaf. -/
def nodesOf (leaf : NodeId) (layers : List Layer) : List NodeId :=
  layers.map Layer.link ++ [leaf]

theorem nodesOf_cons (leaf : NodeId) (layer : Layer) (layers : List Layer) :
    nodesOf leaf (layer :: layers) = layer.link :: nodesOf leaf layers := rfl

variable {t : Tree} {o : Oracle} {b : Table}

namespace Successors

/-- Marking a spine changes the entries of its own nodes only. -/
theorem has_markSpine_of_notMem {id : NodeId} {spine : List (Option NodeId × Link)}
    (h : some id ∉ spine.map Prod.fst) (consumed : Bool) (s : Successors) :
    (s.markSpine t o consumed spine).has id = s.has id := by
  induction spine generalizing consumed s with
  | nil => rfl
  | cons entry rest ih =>
      obtain ⟨node, link⟩ := entry
      rw [List.map_cons, List.mem_cons, not_or] at h
      obtain ⟨hne, hrest⟩ := h
      have hentered : ((node.map fun node => s.raise node consumed).getD s).has id = s.has id := by
        cases node with
        | none => rfl
        | some node => exact has_raise_of_ne s consumed fun heq => hne (congrArg some heq)
      unfold markSpine
      cases link <;> simp only [ih hrest, hentered]

end Successors

theorem spineUpTo_leaf {e id : NodeId} (skip : t.skipParentheses (some e) = some id)
    (link : linkOf t o (some id) = .promise) (limit : Nat) :
    spineUpTo t o (limit + 1) (some e) = [(some id, .promise)] := by
  simp [spineUpTo, skip, link, Link.receiver?]

theorem spineUpTo_layer {e id callee receiver : NodeId} {form : Form}
    (skip : t.skipParentheses (some e) = some id)
    (hasForm : HasForm t o b (linkOf t o (some id)) callee receiver form) (limit : Nat) :
    spineUpTo t o (limit + 1) (some e) =
      (some id, linkOf t o (some id)) :: spineUpTo t o limit (some receiver) := by
  have hreceiver : (linkOf t o (some id)).receiver? = some (some receiver) := by
    generalize linkOf t o (some id) = link at hasForm
    cases hasForm <;> rfl
  simp only [spineUpTo, skip, hreceiver, Option.map_some, Option.getD_some]

/-- The spine of a chain consists of its links and its leaf. -/
theorem fst_spineUpTo {e leaf : NodeId} {layers : List Layer} (h : Chained t o b e leaf layers) :
    ∀ limit, layers.length < limit →
      (spineUpTo t o limit (some e)).map Prod.fst = (nodesOf leaf layers).map some := by
  induction h with
  | leaf skip link =>
      intro limit hlimit
      obtain ⟨limit, rfl⟩ : ∃ n, limit = n + 1 := ⟨limit - 1, by simp at hlimit; omega⟩
      rw [spineUpTo_leaf skip link]
      rfl
  | layer skip hasForm method rest ih =>
      intro limit hlimit
      obtain ⟨limit, rfl⟩ : ∃ n, limit = n + 1 := ⟨limit - 1, by simp at hlimit; omega⟩
      rw [spineUpTo_layer skip hasForm, nodesOf_cons, List.map_cons, List.map_cons,
        ih limit (by simpa using hlimit)]

/-- A link enters itself, and the rest of its chain as consumed if it calls a function with the
value of its receiver. -/
theorem markSpine_layer {id callee receiver : NodeId} {link : Link} {form : Form}
    (hasForm : HasForm t o b link callee receiver form) (consumed : Bool) (s : Successors)
    (rest : List (Option NodeId × Link)) :
    s.markSpine t o consumed ((some id, link) :: rest) =
      (s.raise id consumed).markSpine t o (consumed || form.consumes) rest := by
  cases hasForm with
  | pass fulfilled rejected =>
      simp [Successors.markSpine, fulfilled, Handler.isAbsent, Form.consumes]
  | reason fulfilled rejected =>
      simp [Successors.markSpine, fulfilled, Handler.isAbsent, Form.consumes]
  | catches rejected => simp [Successors.markSpine, Form.consumes]
  | @value _ _ onFulfilled _ _ fulfilled rejected =>
      have hpresent : (handlerOf t o onFulfilled).isAbsent = false := by
        cases hh : handlerOf t o onFulfilled with
        | absent => exact absurd hh fulfilled.ne_absent
        | _ => rfl
      simp [Successors.markSpine, hpresent, Form.consumes]

theorem marked_markSpine {e leaf : NodeId} {layers : List Layer}
    (h : Chained t o b e leaf layers) :
    ∀ limit consumed (s : Successors), layers.length < limit → (nodesOf leaf layers).Nodup →
      (∀ id ∈ nodesOf leaf layers, s.has id = false) →
      Marked (s.markSpine t o consumed (spineUpTo t o limit (some e))) leaf consumed layers := by
  induction h with
  | leaf skip link =>
      intro limit consumed s hlimit _ hnone
      obtain ⟨limit, rfl⟩ : ∃ n, limit = n + 1 := ⟨limit - 1, by simp at hlimit; omega⟩
      rw [spineUpTo_leaf skip link]
      show (Successors.raise _ _ _).has _ = _
      rw [Successors.has_raise_self, hnone _ (List.mem_singleton_self _), Bool.false_or]
  | layer skip hasForm method rest ih =>
      intro limit consumed s hlimit hnodup hnone
      obtain ⟨limit, rfl⟩ : ∃ n, limit = n + 1 := ⟨limit - 1, by simp at hlimit; omega⟩
      have hlimit' := Nat.lt_of_succ_lt_succ hlimit
      rw [nodesOf_cons, List.nodup_cons] at hnodup
      obtain ⟨hid, hnodup⟩ := hnodup
      rw [spineUpTo_layer skip hasForm, markSpine_layer hasForm]
      refine ⟨?_, ih limit _ _ hlimit' hnodup fun other hother => ?_⟩
      · rw [Successors.has_markSpine_of_notMem, Successors.has_raise_self,
          hnone _ List.mem_cons_self, Bool.false_or]
        rw [fst_spineUpTo rest limit hlimit']
        simpa using hid
      · rw [Successors.has_raise_of_ne, hnone other (List.mem_cons_of_mem _ hother)]
        rintro rfl
        exact hid hother

/-- Marking a chain marks its links as their place in it requires. -/
theorem marked_mark {e leaf : NodeId} {layers : List Layer} (h : Chained t o b e leaf layers)
    (hshort : layers.length < Limits.chainLinks) (hnodup : (nodesOf leaf layers).Nodup)
    {s : Successors} (hnone : ∀ id ∈ nodesOf leaf layers, s.has id = false) :
    Marked (s.mark t o (some e) false) leaf false layers :=
  marked_markSpine h _ _ _ hshort hnodup hnone

end Unchain.Chain
