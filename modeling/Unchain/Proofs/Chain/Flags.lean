import Unchain.Proofs.Chain.Spine

/-!
# The successors that marking enters

What a link of a chain is entered with depends on the links around it alone: it
has a successor if one of them takes a value (`get?_markSpine_split`). A call of
`finally` is kept as written together with all that it is called on, so nothing
further in is entered (`markSpine_finally`). Links are told apart by their
nodes, which no chain that ends holds twice (`nodup_spine`).

Marking several chains enters the disjunction of what each of them enters
(`get?_markAll`); in which order and how often they are marked makes no
difference.
-/

namespace Unchain.Chain

open Promise (Oracle)
open Syntax (Data NodeId NodeList Tree)

namespace Link

/-- The links that can have a successor, and the leaf of a chain. -/
def isMarked : Link → Bool
  | thenCall .. | catchCall .. | finallyCall _ | promise => true
  | member _ | other => false

/-- A call of `finally`. -/
def isFinally : Link → Bool
  | finallyCall _ => true
  | _ => false

/-- A `then` that has a handler for values. -/
def takesValue (t : Tree) (o : Oracle) : Link → Bool
  | thenCall _ _ onFulfilled _ => !(handlerOf t o onFulfilled).isAbsent
  | _ => false

end Link

/-- A chain with no more links than are looked at. -/
def IsWhole (t : Tree) (o : Oracle) (e : Option NodeId) : Prop :=
  (spineUpTo t o (Limits.chainLinks + 1) e).length ≤ Limits.chainLinks

variable {t : Tree} {o : Oracle}

/-! ### The nodes of a chain -/

section

variable (t o)

/-- A node with up to `limit` links further in. -/
def linksFrom (limit : Nat) (id : Option NodeId) : List (Option NodeId × Link) :=
  (id, linkOf t o id) :: ((linkOf t o id).receiver?.map (spineUpTo t o limit)).getD []

theorem spineUpTo_succ (limit : Nat) (e : Option NodeId) :
    spineUpTo t o (limit + 1) e = linksFrom t o limit (t.skipParentheses e) := rfl

end

theorem take_spineUpTo {limit limit' : Nat} (hle : limit ≤ limit') (e : Option NodeId) :
    (spineUpTo t o limit' e).take limit = spineUpTo t o limit e := by
  induction limit generalizing limit' e with
  | zero => rfl
  | succ limit ih =>
      obtain ⟨limit', rfl⟩ : ∃ n, limit' = n + 1 := ⟨limit' - 1, by omega⟩
      rw [spineUpTo_succ, spineUpTo_succ, linksFrom, linksFrom, List.take_succ_cons]
      cases (linkOf t o (t.skipParentheses e)).receiver? with
      | none => rw [Option.map_none, Option.map_none, Option.getD_none, List.take_nil]
      | some part =>
          rw [Option.map_some, Option.map_some, Option.getD_some, Option.getD_some,
            ih (Nat.le_of_succ_le_succ hle)]

/-- A node whose chain ends before a limit has the same links under every higher limit. -/
theorem linksFrom_eq_of_length_le {limit limit' : Nat} {id : Option NodeId}
    (hlength : (linksFrom t o limit id).length ≤ limit) (hle : limit ≤ limit') :
    linksFrom t o limit' id = linksFrom t o limit id := by
  have htake : (linksFrom t o limit' id).take (limit + 1) = linksFrom t o limit id := by
    rw [linksFrom, linksFrom, List.take_succ_cons]
    cases (linkOf t o id).receiver? with
    | none => rw [Option.map_none, Option.map_none, Option.getD_none, List.take_nil]
    | some part =>
        rw [Option.map_some, Option.map_some, Option.getD_some, Option.getD_some,
          take_spineUpTo hle]
  rw [← htake, List.length_take] at hlength
  rw [← htake, List.take_of_length_le (by omega)]

/-- The links of a chain from one of its nodes on are determined by that node. -/
theorem eq_linksFrom_of_spineUpTo {limit : Nat} {e id : Option NodeId} {link : Link}
    {before after : List (Option NodeId × Link)}
    (h : spineUpTo t o limit e = before ++ (id, link) :: after) :
    (id, link) :: after = linksFrom t o (limit - before.length - 1) id := by
  induction before generalizing limit e with
  | nil =>
      cases limit with
      | zero => cases h
      | succ limit =>
          rw [spineUpTo_succ, List.nil_append] at h
          have hid : t.skipParentheses e = id := congrArg Prod.fst (List.cons.inj h).1
          rw [← h, hid]
          rfl
  | cons entry before ih =>
      cases limit with
      | zero => cases h
      | succ limit =>
          rw [spineUpTo_succ, linksFrom, List.cons_append] at h
          cases hreceiver : (linkOf t o (t.skipParentheses e)).receiver? with
          | none =>
              rw [hreceiver] at h
              cases before <;> cases (List.cons.inj h).2
          | some part =>
              rw [hreceiver] at h
              rw [ih (List.cons.inj h).2, List.length_cons, Nat.succ_sub_succ]

/-- A chain that ends holds no node twice: the links from a node on would be their own part. -/
theorem nodup_spineUpTo {limit : Nat} {e : Option NodeId}
    (hlength : (spineUpTo t o limit e).length < limit) :
    ((spineUpTo t o limit e).map Prod.fst).Nodup := by
  induction limit generalizing e with
  | zero => cases hlength
  | succ limit ih =>
      rw [spineUpTo_succ] at hlength ⊢
      generalize t.skipParentheses e = id at hlength ⊢
      have hrest : linksFrom t o limit id = [(id, linkOf t o id)] ∨
          ∃ part, linksFrom t o limit id = (id, linkOf t o id) :: spineUpTo t o limit part := by
        rw [linksFrom]
        cases (linkOf t o id).receiver? with
        | none => exact .inl rfl
        | some part => exact .inr ⟨part, rfl⟩
      obtain hspine | ⟨part, hspine⟩ := hrest
      · rw [hspine]
        exact List.pairwise_singleton _ _
      · have hpart : (spineUpTo t o limit part).length < limit := by
          rw [hspine, List.length_cons] at hlength
          exact Nat.lt_of_succ_lt_succ hlength
        rw [hspine, List.map_cons, List.nodup_cons]
        refine ⟨fun hmem => ?_, ih hpart⟩
        obtain ⟨⟨again, link⟩, hentry, hid⟩ := List.mem_map.mp hmem
        -- A link that came again would be followed by as many links as the first time.
        subst hid
        obtain ⟨before, after, hsplit⟩ := List.append_of_mem hentry
        have hagain := eq_linksFrom_of_spineUpTo hsplit
        have hcount : (spineUpTo t o limit part).length =
            before.length + (after.length + 1) := by
          rw [hsplit, List.length_append, List.length_cons]
        have hsame : linksFrom t o limit again =
            linksFrom t o (limit - before.length - 1) again := by
          refine linksFrom_eq_of_length_le ?_ (by omega)
          rw [← hagain, List.length_cons]
          omega
        have hlengths := congrArg List.length ((hspine.symm.trans hsame).trans hagain.symm)
        rw [List.length_cons, List.length_cons] at hlengths
        omega

/-- No node occurs twice in a chain. -/
theorem nodup_spine {e : Option NodeId} (h : IsWhole t o e) :
    ((spine t o e).map Prod.fst).Nodup := by
  rw [spine, ← take_spineUpTo (Nat.le_succ Limits.chainLinks), List.take_of_length_le h]
  exact nodup_spineUpTo (Nat.lt_succ_of_le h)

/-! ### What marking enters -/

namespace Successors

theorem get?_markSpine_of_notMem {id : NodeId} {spine : List (Option NodeId × Link)}
    (h : some id ∉ spine.map Prod.fst) (consumed : Bool) (s : Successors) :
    (s.markSpine t o consumed spine).get? id = s.get? id := by
  induction spine generalizing consumed s with
  | nil => rfl
  | cons entry rest ih =>
      obtain ⟨node, link⟩ := entry
      rw [List.map_cons, List.mem_cons, not_or] at h
      obtain ⟨hne, hrest⟩ := h
      have hentered :
          ((node.map fun node => s.raise node consumed).getD s).get? id = s.get? id := by
        cases node with
        | none => rfl
        | some node =>
            exact (get?_raise s node id consumed).trans
              (if_neg fun heq => hne (congrArg some heq))
      unfold markSpine
      cases link <;> simp only [ih hrest, hentered]

/-- A node that is not reached through a call of `finally` is entered by whether a link around it
takes a value. -/
theorem get?_markSpine_split {id : NodeId} {link : Link}
    {before after : List (Option NodeId × Link)} (hmarked : link.isMarked = true)
    (hnodup : ((before ++ (some id, link) :: after).map Prod.fst).Nodup)
    (hreached : ∀ entry ∈ before, entry.2.receiver?.isSome = true ∧ entry.2.isFinally = false)
    (consumed : Bool) {s : Successors} (hnone : s.get? id = none) :
    (s.markSpine t o consumed (before ++ (some id, link) :: after)).get? id =
      some (consumed || before.any fun entry => entry.2.takesValue t o) := by
  -- Links before it enter other nodes; they only tell whether its value has been taken.
  induction before generalizing consumed s with
  | nil =>
      rw [List.nil_append, List.map_cons, List.nodup_cons] at hnodup
      have hown : (s.raise id consumed).get? id = some consumed := by
        rw [get?_raise, if_pos rfl, has, hnone, Option.getD_none, Bool.false_or]
      rw [List.nil_append, List.any_nil, Bool.or_false]
      unfold markSpine
      cases link with
      | thenCall => exact (get?_markSpine_of_notMem hnodup.1 _ _).trans hown
      | catchCall => exact (get?_markSpine_of_notMem hnodup.1 _ _).trans hown
      | finallyCall => exact hown
      | promise => exact hown
      | member => cases hmarked
      | other => cases hmarked
  | cons entry before ih =>
      obtain ⟨node, outer⟩ := entry
      rw [List.cons_append, List.map_cons, List.nodup_cons] at hnodup
      obtain ⟨⟨hreceiver, hfinally⟩, hrest⟩ := List.forall_mem_cons.mp hreached
      have hne : node ≠ some id := by
        rintro rfl
        exact hnodup.1 (List.mem_map.mpr
          ⟨(some id, link), List.mem_append_right _ List.mem_cons_self, rfl⟩)
      have hentered : ((node.map fun node => s.raise node consumed).getD s).get? id = none := by
        cases node with
        | none => exact hnone
        | some node =>
            refine (get?_raise s node id consumed).trans ((if_neg fun heq => ?_).trans hnone)
            exact hne (congrArg some heq.symm)
      rw [List.cons_append, List.any_cons]
      unfold markSpine
      cases outer with
      | thenCall =>
          exact (ih hnodup.2 hrest _ hentered).trans (congrArg some (Bool.or_assoc ..))
      | catchCall => exact ih hnodup.2 hrest _ hentered
      | member => exact ih hnodup.2 hrest _ hnone
      | finallyCall => cases hfinally
      | promise => cases hreceiver
      | other => cases hreceiver

/-- What a call of `finally` is called on is not entered. -/
theorem markSpine_finally {node : Option NodeId} {link : Link} (hfinally : link.isFinally = true)
    (before after : List (Option NodeId × Link)) (consumed : Bool) (s : Successors) :
    s.markSpine t o consumed (before ++ (node, link) :: after) =
      s.markSpine t o consumed (before ++ [(node, link)]) := by
  induction before generalizing consumed s with
  | nil =>
      cases link with
      | finallyCall => rfl
      | _ => cases hfinally
  | cons entry before ih =>
      obtain ⟨outerNode, outer⟩ := entry
      rw [List.cons_append, List.cons_append]
      unfold markSpine
      cases outer with
      | thenCall => exact ih _ _
      | catchCall => exact ih _ _
      | member => exact ih _ _
      | finallyCall => rfl
      | promise => rfl
      | other => rfl

end Successors

/-- A chain goes on from every link but its last. -/
theorem isSome_receiver?_of_spineUpTo {limit : Nat} {e : Option NodeId}
    {before after : List (Option NodeId × Link)} {entry : Option NodeId × Link}
    (h : spineUpTo t o limit e = before ++ entry :: after) :
    ∀ outer ∈ before, outer.2.receiver?.isSome = true := by
  induction before generalizing limit e with
  | nil => exact fun outer houter => nomatch houter
  | cons first before ih =>
      cases limit with
      | zero => cases h
      | succ limit =>
          rw [spineUpTo_succ, linksFrom, List.cons_append] at h
          obtain ⟨rfl, hrest⟩ := List.cons.inj h
          cases hreceiver : (linkOf t o (t.skipParentheses e)).receiver? with
          | none =>
              rw [hreceiver] at hrest
              cases before <;> cases hrest
          | some part =>
              rw [hreceiver] at hrest
              exact List.forall_mem_cons.mpr ⟨Option.isSome_of_eq_some hreceiver, ih hrest⟩

namespace Successors

/-- What marking a chain enters a node with. -/
theorem get?_mark_split {e : Option NodeId} (hwhole : IsWhole t o e) {id : NodeId} {link : Link}
    {before after : List (Option NodeId × Link)}
    (hspine : spine t o e = before ++ (some id, link) :: after) (hmarked : link.isMarked = true)
    (consumed : Bool) :
    (({} : Successors).mark t o e consumed).get? id =
      if before.any (fun entry => entry.2.isFinally) then none
      else some (consumed || before.any fun entry => entry.2.takesValue t o) := by
  have hnodup := nodup_spine hwhole
  rw [hspine] at hnodup
  rw [mark, hspine]
  split
  · next hany =>
    obtain ⟨⟨node, outer⟩, hmem, hfinally⟩ := List.any_eq_true.mp hany
    obtain ⟨around, between, rfl⟩ := List.append_of_mem hmem
    rw [List.append_assoc, List.cons_append, markSpine_finally hfinally]
    refine get?_markSpine_of_notMem (fun hid => ?_) _ _
    have hsplit : around ++ (node, outer) :: between ++ (some id, link) :: after =
        (around ++ [(node, outer)]) ++ (between ++ (some id, link) :: after) := by simp
    rw [hsplit, List.map_append, List.nodup_append] at hnodup
    exact hnodup.2.2 _ hid _ (List.mem_map.mpr
      ⟨(some id, link), List.mem_append_right _ List.mem_cons_self, rfl⟩) rfl
  · next hany =>
    rw [Bool.not_eq_true, List.any_eq_false] at hany
    refine get?_markSpine_split hmarked hnodup (fun entry hentry => ⟨?_, ?_⟩) consumed rfl
    · exact isSome_receiver?_of_spineUpTo hspine entry hentry
    · exact Bool.eq_false_iff.mpr (hany entry hentry)

/-! ### Marking several chains -/

/-- One entry for several: it is there if one of them is, and true if one of them is. -/
def disjunction (entries : List (Option Bool)) : Option Bool :=
  if entries.any Option.isSome then some (entries.contains (some true)) else none

/-- Marks chains one after the other, each with whether its own value is consumed. -/
def markAll (t : Tree) (o : Oracle) (chains : List (Option NodeId × Bool)) : Successors :=
  chains.foldl (fun s chain => s.mark t o chain.1 chain.2) {}

theorem disjunction_assoc (first second third : Option Bool) :
    disjunction [disjunction [first, second], third] =
      disjunction [first, disjunction [second, third]] := by
  rcases first with _ | _ | _ <;> rcases second with _ | _ | _ <;>
    rcases third with _ | _ | _ <;> rfl

theorem disjunction_cons_cons (first second : Option Bool) (rest : List (Option Bool)) :
    disjunction (disjunction [first, second] :: rest) = disjunction (first :: second :: rest) := by
  rcases first with _ | _ | _ <;> rcases second with _ | _ | _ <;> simp [disjunction]

theorem disjunction_none_right (entry : Option Bool) : disjunction [entry, none] = entry := by
  rcases entry with _ | _ | _ <;> rfl

theorem disjunction_none_cons (entries : List (Option Bool)) :
    disjunction (none :: entries) = disjunction entries := by
  simp [disjunction]

theorem disjunction_singleton (entry : Option Bool) : disjunction [entry] = entry := by
  rcases entry with _ | _ | _ <;> rfl

/-- The order of entries and their repetitions do not matter. -/
theorem disjunction_congr {entries entries' : List (Option Bool)}
    (h : ∀ entry, entry ∈ entries ↔ entry ∈ entries') :
    disjunction entries = disjunction entries' := by
  have hany : entries.any Option.isSome = entries'.any Option.isSome := by
    rw [Bool.eq_iff_iff, List.any_eq_true, List.any_eq_true]
    exact exists_congr fun entry => and_congr_left' (h entry)
  have hcontains : entries.contains (some true) = entries'.contains (some true) := by
    rw [Bool.eq_iff_iff, List.contains_iff_mem, List.contains_iff_mem]
    exact h (some true)
  rw [disjunction, disjunction, hany, hcontains]

theorem get?_raise_eq_disjunction (s : Successors) (link id : NodeId) (value : Bool) :
    (s.raise link value).get? id =
      disjunction [s.get? id, (({} : Successors).raise link value).get? id] := by
  rw [get?_raise, get?_raise]
  split
  · next heq =>
    subst heq
    rw [has, has]
    rcases s.get? id with _ | _ | _ <;> cases value <;> rfl
  · rcases s.get? id with _ | _ | _ <;> rfl

theorem get?_markSpine_eq_disjunction (consumed : Bool) (s : Successors) (id : NodeId)
    (spine : List (Option NodeId × Link)) :
    (s.markSpine t o consumed spine).get? id =
      disjunction [s.get? id, (({} : Successors).markSpine t o consumed spine).get? id] := by
  induction spine generalizing consumed s with
  | nil => exact (disjunction_none_right _).symm
  | cons entry rest ih =>
      obtain ⟨node, link⟩ := entry
      have hown : ((node.map fun node => s.raise node consumed).getD s).get? id =
          disjunction [s.get? id,
            ((node.map fun node => ({} : Successors).raise node consumed).getD {}).get? id] := by
        cases node with
        | none => exact (disjunction_none_right _).symm
        | some node => exact get?_raise_eq_disjunction s node id consumed
      unfold markSpine
      cases link with
      | thenCall => simp only [ih _ (Option.getD _ _), hown, disjunction_assoc]
      | catchCall => simp only [ih _ (Option.getD _ _), hown, disjunction_assoc]
      | member => exact ih _ _
      | finallyCall => exact hown
      | promise => exact hown
      | other => exact (disjunction_none_right _).symm

theorem get?_mark (s : Successors) (chain : Option NodeId × Bool) (id : NodeId) :
    (s.mark t o chain.1 chain.2).get? id =
      disjunction [s.get? id, (({} : Successors).mark t o chain.1 chain.2).get? id] :=
  get?_markSpine_eq_disjunction ..

/-- Marking chains enters what one of them alone would enter. -/
theorem get?_markAll (chains : List (Option NodeId × Bool)) (id : NodeId) :
    (markAll t o chains).get? id =
      disjunction (chains.map fun chain =>
        (({} : Successors).mark t o chain.1 chain.2).get? id) := by
  suffices h : ∀ s : Successors,
      (chains.foldl (fun s chain => s.mark t o chain.1 chain.2) s).get? id =
        disjunction (s.get? id :: chains.map fun chain =>
          (({} : Successors).mark t o chain.1 chain.2).get? id) from
    (h {}).trans (disjunction_none_cons _)
  induction chains with
  | nil => exact fun s => (disjunction_singleton _).symm
  | cons chain chains ih =>
      intro s
      rw [List.foldl_cons, List.map_cons, ih, get?_mark, disjunction_cons_cons]

/-- A node of a chain that is marked on its own is entered as true if a link around it is a `then`
with a handler for values, as false if there is none, and not at all if a link around it is a call
of `finally`. Marking any chains gives the disjunction of marking each of them, whatever their
order and however often they are marked. -/
theorem get?_mark_and_markAll {e : Option NodeId} (hwhole : IsWhole t o e) :
    (∀ before id link after, spine t o e = before ++ (some id, link) :: after →
      link.isMarked = true →
      (({} : Successors).mark t o e false).get? id =
        if before.any (fun entry => entry.2.isFinally) then none
        else some (before.any fun entry => entry.2.takesValue t o)) ∧
    (∀ chains id, (markAll t o chains).get? id =
      disjunction (chains.map fun chain =>
        (({} : Successors).mark t o chain.1 chain.2).get? id)) ∧
    ∀ chains chains', (∀ chain, chain ∈ chains ↔ chain ∈ chains') →
      ∀ id, (markAll t o chains).get? id = (markAll t o chains').get? id := by
  refine ⟨fun before id link after hspine hmarked => ?_, get?_markAll, ?_⟩
  · simpa only [Bool.false_or] using get?_mark_split hwhole hspine hmarked false
  · intro chains chains' hsame id
    rw [get?_markAll, get?_markAll]
    refine disjunction_congr fun entry => ?_
    rw [List.mem_map, List.mem_map]
    exact exists_congr fun chain => and_congr_left' (hsame chain)

end Successors

namespace Sample

/-- `p.then(a).finally(b).then(c)` -/
def finallyTree : Tree where
  nodes := #[⟨.identifier "p", {}, 0, 1, none, none⟩, ⟨.identifier "then", {}, 2, 6, none, none⟩,
    ⟨.access .property (some 0) (some 1) false, {}, 0, 6, none, none⟩,
    ⟨.identifier "a", {}, 7, 8, none, none⟩,
    ⟨.call .call (some 2) none (some { nodes := [3] }), {}, 0, 9, none, none⟩,
    ⟨.identifier "finally", {}, 10, 17, none, none⟩,
    ⟨.access .property (some 4) (some 5) false, {}, 0, 17, none, none⟩,
    ⟨.identifier "b", {}, 18, 19, none, none⟩,
    ⟨.call .call (some 6) none (some { nodes := [7] }), {}, 0, 20, none, none⟩,
    ⟨.identifier "then", {}, 21, 25, none, none⟩,
    ⟨.access .property (some 8) (some 9) false, {}, 0, 25, none, none⟩,
    ⟨.identifier "c", {}, 26, 27, none, none⟩,
    ⟨.call .call (some 10) none (some { nodes := [11] }), {}, 0, 28, none, none⟩]

def finallyOracle : Oracle := ⟨[0, 4, 8, 12].contains, fun _ => none, fun _ => none⟩

theorem spine_finallyTree : spine finallyTree finallyOracle (some 12) =
    [(some 12, .thenCall 10 8 (some 11) none), (some 8, .finallyCall 4),
      (some 4, .thenCall 2 0 (some 3) none), (some 0, .promise)] := by decide +kernel

theorem isWhole_finallyTree : IsWhole finallyTree finallyOracle (some 12) := by
  unfold IsWhole
  decide +kernel

end Sample

/-- What the call of `finally` is called on has no entry, although the outermost link takes a
value; the call of `finally` itself has one, and marking the chain twice changes neither. -/
theorem get?_mark_and_markAll_sample :
    IsWhole Sample.finallyTree Sample.finallyOracle (some 12) ∧
    ∀ s, s = ({} : Successors).mark Sample.finallyTree Sample.finallyOracle (some 12) false →
      s.get? 12 = some false ∧ s.get? 8 = some true ∧ s.get? 4 = none ∧
        ∀ id, (Successors.markAll Sample.finallyTree Sample.finallyOracle
            [(some 12, false), (some 8, true), (some 12, false)]).get? id =
          (Successors.markAll Sample.finallyTree Sample.finallyOracle
            [(some 8, true), (some 12, false)]).get? id := by
  obtain ⟨hmark, -, hsame⟩ := Successors.get?_mark_and_markAll Sample.isWhole_finallyTree
  rw [Sample.spine_finallyTree] at hmark
  refine ⟨Sample.isWhole_finallyTree, ?_⟩
  rintro _ rfl
  refine ⟨hmark [] 12 _ _ rfl rfl, (hmark [_] 8 _ _ rfl rfl).trans (by decide +kernel),
    hmark [_, _] 4 _ _ rfl rfl, hsame _ _ fun chain => ?_⟩
  simp only [List.mem_cons, List.not_mem_nil, or_false]
  exact ⟨fun h => h.elim .inr id, .inr⟩

/-- A link whose value the outermost link would take has no entry if it is reached through a call
of `finally`. -/
theorem not_get?_mark_sample :
    IsWhole Sample.finallyTree Sample.finallyOracle (some 12) ∧ ¬ ∀ before id link after,
    spine Sample.finallyTree Sample.finallyOracle (some 12) =
      before ++ (some id, link) :: after → link.isMarked = true →
    (({} : Successors).mark Sample.finallyTree Sample.finallyOracle (some 12) false).get? id =
      some (before.any fun entry =>
        entry.2.takesValue Sample.finallyTree Sample.finallyOracle) := by
  refine ⟨Sample.isWhole_finallyTree, fun hclaim => ?_⟩
  rw [Sample.spine_finallyTree] at hclaim
  have hentry := hclaim [_, _] 4 _ _ rfl rfl
  have hnone : (({} : Successors).mark Sample.finallyTree Sample.finallyOracle (some 12)
      false).get? 4 = none := by decide +kernel
  cases hnone.symm.trans hentry

end Unchain.Chain
