import Unchain.Proofs.Chain.Grafts

/-!
# Outlines of chains

The outline of a chain is its spine without what depends on the tree that it is
in: the kinds of its links and the nodes that they were made from. It stays the
same while the tree grows (`outline_evolves`). All of its links but the last one
go on, and it ends with the leaf of the chain (`getLast?_outline`).
-/

namespace Unchain.Chain

open Promise (Oracle)
open Syntax (NodeId Tree)
open Syntax.Tree (Evolves holds_some)

variable {t t' : Tree} {o : Oracle} {e x : NodeId}

/-- A link without what it is called on. -/
inductive LinkKind where
  | thenCall (onFulfilled onRejected : Option NodeId)
  | catchCall (onRejected : NodeId)
  | finallyCall
  | promise
  | member
  | other
  deriving DecidableEq, Repr

/-- Whether a chain goes on behind a link of the kind. -/
def LinkKind.goesOn : LinkKind → Bool
  | promise | other => false
  | _ => true

namespace Link

/-- The kind of a link, with its handlers. -/
def kind : Link → LinkKind
  | thenCall _ _ onFulfilled onRejected => .thenCall onFulfilled onRejected
  | catchCall _ _ onRejected => .catchCall onRejected
  | finallyCall _ => .finallyCall
  | promise => .promise
  | member _ => .member
  | other => .other

/-- Whether a chain goes on can be seen from the kind of a link. -/
theorem isSome_receiver? (link : Link) : link.receiver?.isSome = link.kind.goesOn := by
  cases link <;> rfl

end Link

section

variable (t : Tree) (o : Oracle)

/-- The kinds of up to `limit` links of a chain, the outermost first, with the nodes that they were
made from. -/
def outlineUpTo (limit : Nat) (e : Option NodeId) : List (Option NodeId × LinkKind) :=
  (spineUpTo t o limit e).map fun (id, link) => (id.map t.originOf, link.kind)

/-- The kinds of the links of a chain, the outermost first, with the nodes that they were made
from. -/
def outline (e : Option NodeId) : List (Option NodeId × LinkKind) :=
  outlineUpTo t o Limits.chainLinks e

end

theorem outlineUpTo_succ (limit : Nat) (e : Option NodeId) :
    outlineUpTo t o (limit + 1) e =
      ((t.skipParentheses e).map t.originOf, (linkOf t o (t.skipParentheses e)).kind) ::
        ((linkOf t o (t.skipParentheses e)).receiver?.map (outlineUpTo t o limit)).getD [] := by
  rw [outlineUpTo, spineUpTo, List.map_cons]
  cases (linkOf t o (t.skipParentheses e)).receiver? <;> rfl

/-- The parentheses around a chain are not part of its outline. -/
theorem outlineUpTo_congr {limit : Nat} {e e' : Option NodeId}
    (h : t.skipParentheses e = t.skipParentheses e') :
    outlineUpTo t o limit e = outlineUpTo t o limit e' := by
  cases limit with
  | zero => rfl
  | succ limit => rw [outlineUpTo_succ, outlineUpTo_succ, h]

theorem take_outlineUpTo {n m : Nat} (h : n ≤ m) (e : Option NodeId) :
    (outlineUpTo t o m e).take n = outlineUpTo t o n e := by
  induction n generalizing m e with
  | zero => rfl
  | succ n ih =>
    obtain ⟨m, rfl⟩ : ∃ k, m = k + 1 := ⟨m - 1, by omega⟩
    rw [outlineUpTo_succ, outlineUpTo_succ, List.take_succ_cons]
    congr 1
    cases (linkOf t o (t.skipParentheses e)).receiver? with
    | none => exact List.take_nil
    | some part => exact ih (Nat.le_of_succ_le_succ h) part

/-- The links of a chain have the origins that they had. -/
theorem outline_evolves (h : Evolves t t') (ht : t.Closed) {e : Option NodeId} (he : t.Holds e) :
    outline t' o e = outline t o e := by
  rw [outline, outline, outlineUpTo, outlineUpTo, spineUpTo_evolves h ht Limits.chainLinks he]
  refine List.map_congr_left fun ⟨id, link⟩ hmem => ?_
  cases id with
  | none => rfl
  | some x =>
    obtain ⟨first, rfl, hcontinues⟩ := continues_of_mem_spineUpTo hmem
    have hx := ((Grafts.refl t).continues ht (holds_some.mp he) hcontinues).2
    exact Prod.ext (congrArg some (h.originOf hx)) rfl

/-! ### Where a chain ends -/

theorem data?_of_isIdentifier (h : t.isIdentifier x = true) :
    ∃ text, t.data? x = some (.identifier text) := by
  obtain ⟨data, hdata, hname⟩ := (Option.any_eq_true _ _).mp h
  cases data with
  | identifier text => exact ⟨text, hdata⟩
  | _ => cases hname

/-- A name is the leaf of a chain. -/
theorem receiver?_linkOf_of_isIdentifier (h : t.isIdentifier x = true) :
    (linkOf t o (some x)).receiver? = none := by
  obtain ⟨text, hdata⟩ := data?_of_isIdentifier h
  rw [linkOf, Tree.partData?, Option.bind_some, hdata]
  exact receiver?_plain (some x)

theorem goesOn_of_mem_dropLast_outlineUpTo {limit : Nat} {e : Option NodeId}
    {entry : Option NodeId × LinkKind} (h : entry ∈ (outlineUpTo t o limit e).dropLast) :
    entry.2.goesOn = true := by
  induction limit generalizing e with
  | zero => cases h
  | succ limit ih =>
    rw [outlineUpTo_succ] at h
    cases hreceiver : (linkOf t o (t.skipParentheses e)).receiver? with
    | none =>
      rw [hreceiver] at h
      cases h
    | some part =>
      rw [hreceiver, Option.map_some, Option.getD_some] at h
      cases hrest : outlineUpTo t o limit part with
      | nil =>
        rw [hrest] at h
        cases h
      | cons next rest =>
        rw [List.dropLast_cons_of_ne_nil (by simp [hrest])] at h
        rcases List.mem_cons.mp h with rfl | hmem
        · rw [← Link.isSome_receiver?, hreceiver]
          rfl
        · exact ih hmem

theorem outline_ne_nil (e : Option NodeId) : outline t o e ≠ [] := by
  rw [outline, Limits.chainLinks, outlineUpTo_succ]
  exact List.cons_ne_nil _ _

theorem link_of_mem_spineUpTo {limit : Nat} {e id : Option NodeId} {link : Link}
    (h : (id, link) ∈ spineUpTo t o limit e) : link = linkOf t o id := by
  induction limit generalizing e with
  | zero => cases h
  | succ limit ih =>
    rw [spineUpTo] at h
    rcases List.mem_cons.mp h with heq | hrest
    · cases heq
      rfl
    · cases hreceiver : (linkOf t o (t.skipParentheses e)).receiver? with
      | none =>
        rw [hreceiver] at hrest
        cases hrest
      | some part =>
        rw [hreceiver] at hrest
        exact ih hrest

/-- A spine ends with its first link, or where the spine of the receiver of that ends. -/
theorem getLast?_spineUpTo_succ {limit : Nat} {link : Link}
    (h : (spineUpTo t o (limit + 1) (some e)).getLast? = some (some x, link)) :
    ∃ id, t.skipParentheses (some e) = some id ∧ (id = x ∨ ∃ receiver,
      (linkOf t o (some id)).receiver? = some (some receiver) ∧
        (spineUpTo t o limit (some receiver)).getLast? = some (some x, link)) := by
  rw [spineUpTo, List.getLast?_cons] at h
  cases hskip : t.skipParentheses (some e) with
  | none =>
    rw [hskip, receiver?_linkOf_none] at h
    cases h
  | some id =>
    rw [hskip] at h
    refine ⟨id, rfl, ?_⟩
    cases hreceiver : (linkOf t o (some id)).receiver? with
    | none =>
      rw [hreceiver] at h
      cases h
      exact .inl rfl
    | some part =>
      rw [hreceiver, Option.map_some, Option.getD_some] at h
      cases hrest : (spineUpTo t o limit part).getLast? with
      | none =>
        rw [hrest] at h
        cases h
        exact .inl rfl
      | some last =>
        rw [hrest] at h
        cases h
        obtain ⟨receiver, rfl, -⟩ := continues_of_mem_spineUpTo (List.mem_of_getLast? hrest)
        exact .inr ⟨receiver, rfl, hrest⟩

/-- The leaf of a chain is the last link of its spine. -/
theorem getLast?_spine (h : leaf t o (some e) = some x) :
    ∃ link, (spine t o (some e)).getLast? = some (some x, link) := by
  cases hlast : (spine t o (some e)).getLast? with
  | none => cases List.getLast?_eq_none_iff.mp hlast
  | some last =>
    rw [leaf, hlast] at h
    exact ⟨last.2, congrArg some (Prod.ext h rfl)⟩

/-- The outline of a chain ends with the origin of its leaf. -/
theorem getLast?_outline (h : leaf t o (some e) = some x) :
    (outline t o (some e)).getLast? = some (some (t.originOf x), (linkOf t o (some x)).kind) := by
  obtain ⟨link, hlast⟩ := getLast?_spine h
  have hlink := link_of_mem_spineUpTo (List.mem_of_getLast? hlast)
  rw [outline, outlineUpTo, List.getLast?_map, ← spine, hlast, ← hlink]
  rfl

/-- A chain of a tree in which no node was made from another has the leaf that its outline ends
with. -/
theorem leaf_of_getLast?_outline (horigin : ∀ id, t.originOf id = id) {kind : LinkKind}
    (h : (outline t o (some e)).getLast? = some (some x, kind)) : leaf t o (some e) = some x := by
  rw [outline, outlineUpTo, List.getLast?_map] at h
  obtain ⟨⟨id, link⟩, hlast, hentry⟩ := Option.map_eq_some_iff.mp h
  obtain ⟨node, rfl, hnode⟩ := Option.map_eq_some_iff.mp (Prod.mk.inj hentry).1
  rw [leaf, spine, hlast, ← hnode, horigin]
  rfl

end Unchain.Chain
