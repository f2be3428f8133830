import Unchain.Proofs.Syntax.Growth
import Unchain.Proofs.Token.Names
import Unchain.Text.Offset

/-!
# Nodes in a row

A node that is made takes up the nodes that stand between its ends. `Row` says
that nodes stand there one after another; `Placed` that the children of a node
are such a row, older than the node and with the node as their parent. If all
nodes of a tree are placed, making one more node of a row of nodes without a
parent leaves them so (`WellPlaced.add`).

After an error nodes may have other ends than the text that they stand for. So
all that is said of ends depends on a proposition `clean`, which is to imply that
there was no error; parents and ages do not depend on it.

While a construct is read, the constructs around it are unfinished: `Unfinished`
keeps one row for each, the innermost first.

`BottomUp`, `Branching` and `Nested` are what it comes to for someone who asks a
tree for parts, children and parents: `Nested` with the ends of nodes, the others
without.
-/

namespace Unchain.Syntax

open Text (IsCut)

/-- What a function is called that is an expression. -/
def Data.ownName? : Data → Option NodeId
  | .function .expression f | .function .arrow f => f.name
  | _ => none

/-- What a function or a parameter is called. -/
def Data.calledBy? : Data → Option NodeId
  | .parameter p => p.name
  | d => d.ownName?

/-- A name that may be bound, or a pattern. -/
def Data.MayBind : Data → Prop
  | .identifier word => Token.MayBind word
  | .bindingPattern .. => True
  | _ => False

/-- What something may be called: a function that is an expression by a name, and a parameter by
what may be bound, or by the word that gives the type of the receiver. -/
def Data.MayHaveName : Data → Data → Prop
  | .parameter _, name => name.MayBind ∨ name = .identifier "this"
  | _, name => name.isIdentifier = true

/-- The nodes are the parts, and the children are among them in the order in which they are asked
for. -/
structure Data.FilledBy (data : Data) (ids : List NodeId) : Prop where
  parts : ∀ id, id ∈ data.parts ↔ id ∈ ids
  children : data.children.Sublist ids
  calledBy?_eq : data.calledBy? = none

theorem Data.FilledBy.of_children {data : Data} {ids : List NodeId}
    (hparts : data.parts = data.children) (hname : data.calledBy? = none)
    (h : data.children = ids) : data.FilledBy ids :=
  ⟨fun id => by rw [hparts, h], h ▸ .refl _, hname⟩

namespace Tree

/-- A node that keeps its text. -/
def IsText (t : Tree) (id : NodeId) : Prop := ∃ k s, t.data? id = some (.verbatim k s)

theorem IsText.grows {t t' : Tree} {id : NodeId} (h : t.IsText id) (hg : t.Grows t') :
    t'.IsText id := by
  obtain ⟨k, s, hdata⟩ := h
  exact ⟨k, s, hg.data? hdata⟩

/-- The children of a node that starts at `pos`, in the order of the text: `<T>x` has its type,
which is kept as text, in front of its expression. -/
def InTextOrder (t : Tree) (text : List Char) (pos : Nat) (d : Data) (row : List NodeId) : Prop :=
  row = d.children ∨ ∃ e type rest, d = .assertion .asType e (some type) ∧ t.IsText type ∧
    Text.dropBytes? pos text = some ('<' :: rest) ∧ row = type :: e.toList

theorem InTextOrder.mem_iff {t : Tree} {text : List Char} {pos : Nat} {d : Data}
    {row : List NodeId} (h : t.InTextOrder text pos d row) (id : NodeId) :
    id ∈ row ↔ id ∈ d.children := by
  rcases h with rfl | ⟨e, type, rest, rfl, -, -, rfl⟩
  · rfl
  · rw [Data.children, List.mem_append, List.mem_cons, Option.toList_some, List.mem_singleton,
      or_comm]

theorem InTextOrder.grows {t t' : Tree} {text : List Char} {pos : Nat} {d : Data}
    {row : List NodeId} (h : t.InTextOrder text pos d row) (hg : t.Grows t') :
    t'.InTextOrder text pos d row := by
  rcases h with h | ⟨e, type, rest, hd, htype, hopen, hrow⟩
  · exact .inl h
  · exact .inr ⟨e, type, rest, hd, htype.grows hg, hopen, hrow⟩

/-! ### Rows -/

/-- The nodes have the parent and, if `clean` holds, stand one after another between two offsets,
older ones first. -/
def Row (t : Tree) (clean : Prop) (parent : Option NodeId) : Nat → Nat → List NodeId → Prop
  | lo, hi, [] => clean → lo ≤ hi
  | lo, hi, id :: rest => ∃ n, t.node? id = some n ∧ n.parent = parent ∧
      (clean → lo ≤ n.pos ∧ n.pos ≤ n.stop) ∧ (∀ later ∈ rest, id < later) ∧
      t.Row clean parent n.stop hi rest

namespace Row

variable {t t' : Tree} {clean : Prop} {parent parent' : Option NodeId} {lo lo' mid hi hi' : Nat}
  {ids as bs : List NodeId}

theorem le (h : t.Row clean parent lo hi ids) (hclean : clean) : lo ≤ hi := by
  induction ids generalizing lo with
  | nil => exact h hclean
  | cons id rest ih =>
    obtain ⟨n, -, -, hpos, -, hrest⟩ := h
    have := hpos hclean
    have := ih hrest
    omega

theorem mono (h : t.Row clean parent lo hi ids) (hlo : clean → lo' ≤ lo) (hhi : clean → hi ≤ hi') :
    t.Row clean parent lo' hi' ids := by
  induction ids generalizing lo lo' with
  | nil => exact fun hclean => Nat.le_trans (hlo hclean) (Nat.le_trans (h hclean) (hhi hclean))
  | cons id rest ih =>
    obtain ⟨n, hnode, hparent, hpos, hlater, hrest⟩ := h
    exact ⟨n, hnode, hparent,
      fun hclean => ⟨Nat.le_trans (hlo hclean) (hpos hclean).1, (hpos hclean).2⟩, hlater,
      ih hrest fun _ => Nat.le_refl _⟩

theorem append (ha : t.Row clean parent lo mid as) (hb : t.Row clean parent mid hi bs)
    (hlater : ∀ a ∈ as, ∀ b ∈ bs, a < b) : t.Row clean parent lo hi (as ++ bs) := by
  induction as generalizing lo with
  | nil => exact hb.mono ha fun _ => Nat.le_refl hi
  | cons a as ih =>
    obtain ⟨n, hnode, hparent, hpos, hfirst, hrest⟩ := ha
    refine ⟨n, hnode, hparent, hpos, fun later hmem => ?_,
      ih hrest fun a' ha' => hlater a' (List.mem_cons_of_mem a ha')⟩
    rcases List.mem_append.mp hmem with hmem | hmem
    · exact hfirst later hmem
    · exact hlater a List.mem_cons_self later hmem

theorem sublist (h : t.Row clean parent lo hi bs) (hsub : as.Sublist bs) :
    t.Row clean parent lo hi as := by
  induction hsub generalizing lo with
  | slnil => exact h
  | cons b hsub ih =>
    obtain ⟨n, -, -, hpos, -, hrest⟩ := h
    exact ih (hrest.mono (fun hclean => Nat.le_trans (hpos hclean).1 (hpos hclean).2)
      fun _ => Nat.le_refl hi)
  | cons_cons b hsub ih =>
    obtain ⟨n, hnode, hparent, hpos, hlater, hrest⟩ := h
    exact ⟨n, hnode, hparent, hpos, fun later hmem => hlater later (hsub.subset hmem), ih hrest⟩

/-- A row after every node of it was given a parent, and other nodes were changed in other ways. -/
theorem adopted (h : t.Row clean parent lo hi ids)
    (hadopt : ∀ id ∈ ids, ∀ n, t.node? id = some n → n.parent = parent →
      t'.node? id = some { n with parent := parent' }) : t'.Row clean parent' lo hi ids := by
  induction ids generalizing lo with
  | nil => exact h
  | cons id rest ih =>
    obtain ⟨n, hnode, hparent, hpos, hlater, hrest⟩ := h
    exact ⟨_, hadopt id List.mem_cons_self n hnode hparent, rfl, hpos, hlater,
      ih hrest fun other hmem => hadopt other (List.mem_cons_of_mem id hmem)⟩

/-- A row whose nodes stay as they are stays a row. -/
theorem congr (h : t.Row clean parent lo hi ids) (hsame : ∀ id ∈ ids, t'.node? id = t.node? id) :
    t'.Row clean parent lo hi ids :=
  h.adopted fun id hid n hnode hparent => by rw [hsame id hid, hnode, ← hparent]

theorem mem (h : t.Row clean parent lo hi ids) {id : NodeId} (hid : id ∈ ids) :
    ∃ n, t.node? id = some n ∧ n.parent = parent ∧ (clean → lo ≤ n.pos ∧ n.stop ≤ hi) := by
  induction ids generalizing lo with
  | nil => cases hid
  | cons first rest ih =>
    obtain ⟨n, hnode, hparent, hpos, -, hrest⟩ := h
    rcases List.mem_cons.mp hid with rfl | hid
    · exact ⟨n, hnode, hparent, fun hclean => ⟨(hpos hclean).1, hrest.le hclean⟩⟩
    · obtain ⟨m, hm, hmparent, hmpos⟩ := ih hrest hid
      refine ⟨m, hm, hmparent, fun hclean => ?_⟩
      have := hpos hclean
      have := hmpos hclean
      omega

end Row

/-- A node ends before another starts. -/
def Before (t : Tree) (a b : NodeId) : Prop :=
  ∃ m n, t.node? a = some m ∧ t.node? b = some n ∧ m.stop ≤ n.pos

theorem Row.pairwise {t : Tree} {clean : Prop} {parent : Option NodeId} {lo hi : Nat}
    {ids : List NodeId} (h : t.Row clean parent lo hi ids) :
    ids.Pairwise fun a b => a < b ∧ (clean → t.Before a b) := by
  induction ids generalizing lo with
  | nil => exact .nil
  | cons id rest ih =>
    obtain ⟨n, hnode, -, -, hlater, hrest⟩ := h
    refine .cons (fun later hmem => ⟨hlater later hmem, fun hclean => ?_⟩) (ih hrest)
    obtain ⟨m, hm, -, hpos⟩ := hrest.mem hmem
    exact ⟨n, m, hnode, hm, (hpos hclean).1⟩

theorem Row.nodup {t : Tree} {clean : Prop} {parent : Option NodeId} {lo hi : Nat}
    {ids : List NodeId} (h : t.Row clean parent lo hi ids) : ids.Nodup :=
  h.pairwise.imp fun hab => Nat.ne_of_lt hab.1

/-! ### Placed nodes -/

/-- If something is called by a node, it may be called so. -/
def IsNamed (t : Tree) (d : Data) : Prop :=
  ∀ id, d.calledBy? = some id → ∃ name, t.data? id = some name ∧ d.MayHaveName name

theorem IsNamed.grows {t t' : Tree} {d : Data} (h : t.IsNamed d) (hg : t.Grows t') :
    t'.IsNamed d := by
  intro id hid
  obtain ⟨name, hdata, hname⟩ := h id hid
  exact ⟨name, hg.data? hdata, hname⟩

/-- A function that is an expression is called by a name. -/
theorem IsNamed.isIdentifier {t : Tree} {d : Data} {id : NodeId} (h : t.IsNamed d)
    (hid : d.ownName? = some id) : t.isIdentifier id = true := by
  unfold Data.ownName? at hid
  split at hid
  · obtain ⟨name, hdata, hname⟩ := h id hid
    rw [Tree.isIdentifier, hdata]
    exact hname
  · obtain ⟨name, hdata, hname⟩ := h id hid
    rw [Tree.isIdentifier, hdata]
    exact hname
  · cases hid

/-- A node was not made from another one. Its children are older than the node and know it as their
parent. If `clean` holds, it is cut out of the text and lies within its parent, and its children are
cut out of it. -/
structure Placed (t : Tree) (clean : Prop) (text : List Char) (id : NodeId) (n : Node) : Prop where
  origin : n.origin = none
  named : t.IsNamed n.data
  parts_lt : ∀ part ∈ n.data.parts, (part : Nat) < id
  le : clean → n.pos ≤ n.stop
  isCut_pos : clean → IsCut text n.pos
  isCut_stop : clean → IsCut text n.stop
  within : clean → ∀ {parent}, n.parent = some parent →
    ∃ m, t.node? parent = some m ∧ m.pos ≤ n.pos ∧ n.stop ≤ m.stop
  row : ∃ row, t.InTextOrder text n.pos n.data row ∧ (∀ child ∈ row, child < id) ∧
    t.Row clean (some id) n.pos n.stop row

/-- All nodes are placed. -/
def WellPlaced (t : Tree) (clean : Prop) (text : List Char) : Prop :=
  ∀ id n, t.node? id = some n → t.Placed clean text id n

/-- The unfinished constructs before an offset, the innermost first: where each starts and which
nodes it has so far. The nodes of an inner one are younger. -/
def Unfinished (t : Tree) (clean : Prop) (text : List Char) :
    Nat → List (Nat × List NodeId) → Prop
  | _, [] => True
  | hi, (pos, ids) :: outer => IsCut text pos ∧ t.Row clean none pos hi ids ∧
      (∀ construct ∈ outer, ∀ older ∈ construct.2, ∀ id ∈ ids, older < id) ∧
      t.Unfinished clean text pos outer

namespace Unfinished

variable {t t' : Tree} {clean : Prop} {text : List Char} {hi hi' pos p : Nat} {ids : List NodeId}
  {outer constructs : List (Nat × List NodeId)}

theorem mono (h : t.Unfinished clean text hi constructs) (hhi : clean → hi ≤ hi') :
    t.Unfinished clean text hi' constructs := by
  cases constructs with
  | nil => trivial
  | cons construct outer => exact ⟨h.1, h.2.1.mono (fun _ => Nat.le_refl _) hhi, h.2.2⟩

/-- Nodes of an unfinished construct may be left out. -/
theorem forget (h : t.Unfinished clean text hi ((pos, ids) :: outer)) {some : List NodeId}
    (hsub : some.Sublist ids) : t.Unfinished clean text hi ((pos, some) :: outer) :=
  ⟨h.1, h.2.1.sublist hsub,
    fun construct hc older ho id hid => h.2.2.1 construct hc older ho id (hsub.subset hid), h.2.2.2⟩

/-- A construct starts where the nodes so far end. -/
theorem start (h : t.Unfinished clean text hi constructs) (hp : hi ≤ p) (hcut : IsCut text p) :
    t.Unfinished clean text p ((p, []) :: constructs) :=
  ⟨hcut, fun _ => Nat.le_refl p, fun _ _ _ _ _ hid => (List.not_mem_nil hid).elim,
    h.mono fun _ => hp⟩

/-- The nodes of an inner construct become nodes of the one around it. -/
theorem merge {inner : List NodeId}
    (h : t.Unfinished clean text hi ((p, inner) :: (pos, ids) :: outer)) :
    t.Unfinished clean text hi ((pos, ids ++ inner) :: outer) := by
  obtain ⟨-, hinner, hyounger, hcut, hrow, holder, houter⟩ := h
  refine ⟨hcut, hrow.append hinner fun a ha b hb => ?_, fun construct hc older ho id hid => ?_,
    houter⟩
  · exact hyounger _ List.mem_cons_self a ha b hb
  · rcases List.mem_append.mp hid with hid | hid
    · exact holder construct hc older ho id hid
    · exact hyounger construct (List.mem_cons_of_mem _ hc) older ho id hid

theorem congr (h : t.Unfinished clean text hi constructs)
    (hsame : ∀ construct ∈ constructs, ∀ id ∈ construct.2, t'.node? id = t.node? id) :
    t'.Unfinished clean text hi constructs := by
  induction constructs generalizing hi with
  | nil => trivial
  | cons construct outer ih =>
    obtain ⟨hcut, hrow, holder, houter⟩ := h
    exact ⟨hcut, hrow.congr (hsame construct List.mem_cons_self), holder,
      ih houter fun other hmem => hsame other (List.mem_cons_of_mem _ hmem)⟩

theorem lt_size (h : t.Unfinished clean text hi constructs) {construct : Nat × List NodeId}
    (hc : construct ∈ constructs) {id : NodeId} (hid : id ∈ construct.2) : id < t.size := by
  induction constructs generalizing hi with
  | nil => cases hc
  | cons first outer ih =>
    rcases List.mem_cons.mp hc with rfl | hc
    · obtain ⟨n, hn, -⟩ := h.2.1.mem hid
      exact lt_size_of_node? hn
    · exact ih h.2.2.2 hc

end Unfinished

/-! ### Making a node -/

theorem node?_foldl_setParent (parts : List NodeId) (t : Tree) (parent id : NodeId) :
    (parts.foldl (fun t part => t.setParent part parent) t).node? id =
      if id ∈ parts then (t.node? id).map fun n => { n with parent := some parent }
      else t.node? id := by
  induction parts generalizing t with
  | nil => rfl
  | cons part parts ih =>
    rw [List.foldl_cons, ih, setParent, node?_modify]
    by_cases hpart : part = id
    · subst hpart
      by_cases hmem : part ∈ parts <;> simp [hmem, Function.comp_def]
    · have hne : ¬ id = part := fun heq => hpart heq.symm
      simp [hpart, hne]

variable {t : Tree} {clean : Prop} {text : List Char} {data : Data} {pos stop : Nat} {flags : Flags}
  {ids : List NodeId}

/-- A node that was there is as it was, but the new node is its parent if it is a part of it. -/
theorem node?_add_of_lt {id : NodeId} (h : id < t.size) :
    (t.add data pos stop flags).2.node? id =
      if id ∈ data.parts then (t.node? id).map fun n => { n with parent := some t.size }
      else t.node? id := by
  have hlt : id < t.nodes.size := h
  have hpush : (Tree.mk (t.nodes.push { data, flags, pos, stop })).node? id = t.node? id := by
    rw [node?, node?, Array.getElem?_push_lt hlt, Array.getElem?_eq_getElem hlt]
  rw [add, node?_foldl_setParent, hpush]

/-- The new node has no parent, unless it was to be a part of itself. -/
theorem node?_add_size (h : t.size ∉ data.parts) :
    (t.add data pos stop flags).2.node? t.size = some { data, flags, pos, stop } := by
  have hpush : (Tree.mk (t.nodes.push { data, flags, pos, stop })).node? t.size =
      some { data, flags, pos, stop } := Array.getElem?_push_size
  rw [add, node?_foldl_setParent, if_neg h, hpush]

/-- What makes a node: the nodes that stand in a row between its ends are its parts, and all its
children are among them in the order of the text. -/
structure TakesUp (t : Tree) (text : List Char) (pos : Nat) (data : Data) (ids : List NodeId) :
    Prop where
  parts : ∀ id, id ∈ data.parts ↔ id ∈ ids
  row : ∃ row, t.InTextOrder text pos data row ∧ row.Sublist ids
  named : t.IsNamed data

/-- Wherever a node is made of its parts in their order, it takes them up. -/
theorem takesUp_of_filledBy (h : data.FilledBy ids) : t.TakesUp text pos data ids :=
  ⟨h.parts, ⟨_, .inl rfl, h.children⟩, fun _ hname => nomatch h.calledBy?_eq.symm.trans hname⟩

/-- Nodes with a parent are none of the nodes that a new node takes up. -/
theorem Row.add_of_parent {id : NodeId} {lo hi : Nat} {row : List NodeId}
    (h : t.Row clean (some id) lo hi row) (hrow : t.Row clean none pos stop ids)
    (htakes : t.TakesUp text pos data ids) :
    (t.add data pos stop flags).2.Row clean (some id) lo hi row := by
  refine h.congr fun child hc => ?_
  obtain ⟨k, hk, hparent, -⟩ := h.mem hc
  rw [node?_add_of_lt (lt_size_of_node? hk), if_neg]
  intro hmem
  obtain ⟨k', hk', hnone, -⟩ := hrow.mem ((htakes.parts child).mp hmem)
  obtain rfl := Option.some.inj (hk.symm.trans hk')
  exact nomatch hparent.symm.trans hnone

/-- A node that is made of a row of nodes is placed, and so are the nodes before it. -/
theorem WellPlaced.add (h : t.WellPlaced clean text) (hrow : t.Row clean none pos stop ids)
    (htakes : t.TakesUp text pos data ids) (hpos : IsCut text pos)
    (hstop : clean → IsCut text stop) : (t.add data pos stop flags).2.WellPlaced clean text := by
  have hlt (id : NodeId) (hid : id ∈ ids) : id < t.size := by
    obtain ⟨n, hn, -⟩ := hrow.mem hid
    exact lt_size_of_node? hn
  have hself : t.size ∉ data.parts := fun hid =>
    Nat.lt_irrefl _ (hlt _ ((htakes.parts _).mp hid))
  have hgrows : t.Grows (t.add data pos stop flags).2 := .add t data pos stop flags
  intro id n hn
  by_cases hid : id = t.size
  · -- The new node: its row now has it as the parent.
    subst hid
    obtain rfl := Option.some.inj ((node?_add_size hself).symm.trans hn)
    obtain ⟨row, horder, hsub⟩ := htakes.row
    refine ⟨rfl, htakes.named.grows hgrows,
      fun part hpart => hlt part ((htakes.parts part).mp hpart), hrow.le,
      fun _ => hpos, hstop, nofun, row, horder.grows hgrows,
      fun child hc => hlt child (hsub.subset hc), ?_⟩
    refine (hrow.sublist hsub).adopted fun child hc m hm _ => ?_
    rw [node?_add_of_lt (hlt child (hsub.subset hc)),
      if_pos ((htakes.parts child).mpr (hsub.subset hc)), hm, Option.map_some]
  · -- A node before it: its children had a parent, so none of them is in the row.
    have hsize := lt_size_of_node? hn
    rw [size_add] at hsize
    have hid : id < t.size := Nat.lt_of_le_of_ne (Nat.le_of_lt_succ hsize) hid
    obtain ⟨m, hm⟩ := node?_eq_some_of_lt hid
    obtain ⟨horigin, hnamed, hparts, hle, hcut, hcut', hwithin, row, horder, holder, hchildren⟩ :=
      h id m hm
    have hnamed' := hnamed.grows hgrows
    have hkept : (t.add data pos stop flags).2.Row clean (some id) m.pos m.stop row :=
      hchildren.add_of_parent hrow htakes
    rw [node?_add_of_lt hid, hm] at hn
    split at hn
    · next hmem =>
      obtain rfl := Option.some.inj hn
      refine ⟨horigin, hnamed', hparts, hle, hcut, hcut', fun hclean _ hparent => ?_, row,
        horder.grows hgrows, holder, hkept⟩
      obtain rfl := Option.some.inj hparent
      obtain ⟨m', hm', -, hpos⟩ := hrow.mem ((htakes.parts id).mp hmem)
      obtain rfl := Option.some.inj (hm.symm.trans hm')
      exact ⟨_, node?_add_size hself, hpos hclean⟩
    · obtain rfl := Option.some.inj hn
      refine ⟨horigin, hnamed', hparts, hle, hcut, hcut', fun hclean _ hparent => ?_, row,
        horder.grows hgrows, holder, hkept⟩
      obtain ⟨k, hk, hlo, hhi⟩ := hwithin hclean hparent
      obtain ⟨_, hk'⟩ := hgrows.node hk
      exact ⟨_, hk', hlo, hhi⟩

/-- The new node takes the place of its row in the construct that it is for. -/
theorem Unfinished.add {outer : List (Nat × List NodeId)}
    (h : t.Unfinished clean text stop ((pos, ids) :: outer))
    (htakes : t.TakesUp text pos data ids) :
    (t.add data pos stop flags).2.Unfinished clean text stop ((pos, [t.size]) :: outer) := by
  obtain ⟨hcut, hrow, hyounger, houter⟩ := h
  have hself : t.size ∉ data.parts := by
    intro hmem
    obtain ⟨n, hn, -⟩ := hrow.mem ((htakes.parts _).mp hmem)
    exact Nat.lt_irrefl _ (lt_size_of_node? hn)
  refine ⟨hcut, ⟨_, node?_add_size hself, rfl, fun hclean => ⟨Nat.le_refl _, hrow.le hclean⟩,
    nofun, fun _ => Nat.le_refl _⟩, ?_, houter.congr fun construct hc id hid => ?_⟩
  · rintro construct hc older ho id hid
    obtain rfl := List.mem_singleton.mp hid
    exact houter.lt_size hc ho
  · rw [node?_add_of_lt (houter.lt_size hc hid), if_neg]
    intro hmem
    exact Nat.lt_irrefl _ (hyounger construct hc id hid id ((htakes.parts id).mp hmem))

/-! ### Trees of placed nodes -/

/-- A node is a child of one node at most, which is younger and known to it as its parent. -/
structure Branching (t : Tree) : Prop where
  older : ∀ {id child}, child ∈ t.children id → child < id
  parent : ∀ {id child}, child ∈ t.children id → t.parent? child = some id
  nodup : ∀ id, (t.children id).Nodup

theorem Branching.parents_eq {t : Tree} (h : t.Branching) {id id' child : NodeId}
    (hc : child ∈ t.children id) (hc' : child ∈ t.children id') : id = id' :=
  Option.some.inj ((h.parent hc).symm.trans (h.parent hc'))

/-- Parts are older than the nodes that hold them. -/
structure BottomUp (t : Tree) : Prop where
  part_lt : ∀ {id : Nat} {d : Data}, t.data? id = some d → ∀ part ∈ d.parts, (part : Nat) < id

theorem BottomUp.closed {t : Tree} (h : t.BottomUp) : t.Closed where
  part_lt hd part hpart := Nat.lt_trans (h.part_lt hd part hpart) (lt_size_of_data? hd)
  inner_lt hd := h.part_lt hd _ (by simp [Data.parts, Data.children])

/-- The nodes are nested like the parts of the text that they stand for. -/
structure Nested (t : Tree) (text : List Char) : Prop where
  /-- A child is older than its parent. -/
  older : ∀ {id child}, child ∈ t.children id → child < id
  /-- A child knows its parent. -/
  parent : ∀ {id child}, child ∈ t.children id → t.parent? child = some id
  /-- No node is a child of two nodes. -/
  parents_eq : ∀ {id id' child}, child ∈ t.children id → child ∈ t.children id' → id = id'
  /-- No node is a child of a node twice. -/
  nodup : ∀ id, (t.children id).Nodup
  /-- A node starts and ends between two characters. -/
  cut : ∀ {id n}, t.node? id = some n → n.pos ≤ n.stop ∧ IsCut text n.pos ∧ IsCut text n.stop
  /-- A node lies within its parent. -/
  within : ∀ {id n parent}, t.node? id = some n → n.parent = some parent →
    ∃ m, t.node? parent = some m ∧ m.pos ≤ n.pos ∧ n.stop ≤ m.stop
  /-- The children of a node stand one after another, but in `<T>x` the type, which is kept as text,
  comes first. -/
  ordered : ∀ {id n}, t.node? id = some n → (t.children id).Pairwise t.Before ∨
    ∃ e type rest, n.data = .assertion .asType (some e) (some type) ∧ t.IsText type ∧
      Text.dropBytes? n.pos text = some ('<' :: rest) ∧ t.Before type e

theorem Nested.branching (h : t.Nested text) : t.Branching := ⟨h.older, h.parent, h.nodup⟩

theorem children_of_node? {id : NodeId} {n : Node} (h : t.node? id = some n) :
    t.children id = n.data.children := by
  rw [children, data?_of_node? h]
  rfl

theorem node?_of_mem_children {id child : NodeId} (h : child ∈ t.children id) :
    ∃ n, t.node? id = some n := by
  cases hn : t.node? id with
  | some n => exact ⟨n, rfl⟩
  | none => simp [children, data?, hn] at h

/-- Children in the order of the text, in whatever order they are asked for. -/
theorem Placed.pairwise_before {id : NodeId} {n : Node} (h : t.Placed True text id n) :
    n.data.children.Pairwise t.Before ∨
      ∃ e type rest, n.data = .assertion .asType (some e) (some type) ∧ t.IsText type ∧
        Text.dropBytes? n.pos text = some ('<' :: rest) ∧ t.Before type e := by
  obtain ⟨row, horder, -, hrow⟩ := h.row
  have hpairs := hrow.pairwise.imp fun hab => hab.2 trivial
  rcases horder with rfl | ⟨e, type, rest, hdata, htype, hopen, rfl⟩
  · exact .inl hpairs
  · rw [hdata]
    cases e with
    | none => exact .inl (by simp [Data.children])
    | some e =>
      refine .inr ⟨e, type, rest, rfl, htype, hopen, ?_⟩
      exact List.rel_of_pairwise_cons hpairs List.mem_cons_self

theorem WellPlaced.branching (h : t.WellPlaced clean text) : t.Branching := by
  have hrow {id child : NodeId} (hc : child ∈ t.children id) : ∃ n row, t.node? id = some n ∧
      child ∈ row ∧ child < id ∧ t.Row clean (some id) n.pos n.stop row := by
    obtain ⟨n, hn⟩ := node?_of_mem_children hc
    obtain ⟨row, horder, holder, hrow⟩ := (h id n hn).row
    rw [children_of_node? hn, ← horder.mem_iff] at hc
    exact ⟨n, row, hn, hc, holder child hc, hrow⟩
  refine ⟨fun hc => ?_, fun hc => ?_, fun id => ?_⟩
  · obtain ⟨n, row, -, -, hlt, -⟩ := hrow hc
    exact hlt
  · obtain ⟨n, row, -, hmem, -, hrow⟩ := hrow hc
    obtain ⟨m, hm, hparent, -⟩ := hrow.mem hmem
    rw [parent?, hm, Option.bind_some, hparent]
  · cases hn : t.node? id with
    | none => simp [children, data?, hn]
    | some n =>
      obtain ⟨row, horder, -, hrow⟩ := (h id n hn).row
      rw [children_of_node? hn]
      have hnodup := hrow.nodup
      rcases horder with rfl | ⟨e, type, rest, hdata, -, -, rfl⟩
      · exact hnodup
      · rw [hdata, Data.children]
        exact (List.perm_append_singleton type e.toList).nodup_iff.mpr hnodup

theorem WellPlaced.nested (h : t.WellPlaced True text) : t.Nested text := by
  have hbranching := h.branching
  refine ⟨hbranching.older, hbranching.parent, hbranching.parents_eq, hbranching.nodup,
    fun hn => ?_, fun hn => (h _ _ hn).within trivial, fun hn => ?_⟩
  · have hplaced := h _ _ hn
    exact ⟨hplaced.le trivial, hplaced.isCut_pos trivial, hplaced.isCut_stop trivial⟩
  · rw [children_of_node? hn]
    exact (h _ _ hn).pairwise_before

theorem WellPlaced.bottomUp (h : t.WellPlaced clean text) : t.BottomUp := by
  refine ⟨fun {id d} hd => ?_⟩
  obtain ⟨n, hn, rfl⟩ := Option.map_eq_some_iff.mp hd
  exact (h id n hn).parts_lt

theorem WellPlaced.isNamed (h : t.WellPlaced clean text) {id : NodeId} {d : Data}
    (hd : t.data? id = some d) : t.IsNamed d := by
  obtain ⟨n, hn, rfl⟩ := Option.map_eq_some_iff.mp hd
  exact (h id n hn).named

theorem WellPlaced.originOf (h : t.WellPlaced clean text) (id : NodeId) : t.originOf id = id := by
  have hnone : (t.node? id).bind Node.origin = none := by
    cases hn : t.node? id with
    | none => rfl
    | some n => exact (h id n hn).origin
  rw [Tree.originOf]
  cases t.size with
  | zero => rfl
  | succ size => rw [originOf.go, hnone]

/-! ### Below a node -/

/-- A node and what its children and their children are. -/
inductive Below (t : Tree) (id : NodeId) : NodeId → Prop where
  | refl : Below t id id
  | child {parent child : NodeId} (h : Below t id parent) (hc : child ∈ t.children parent) :
      Below t id child

namespace Below

variable {id x y c d : NodeId}

theorem trans (h : t.Below id x) (h' : t.Below x y) : t.Below id y := by
  induction h' with
  | refl => exact h
  | child _ hc ih => exact .child ih hc

theorem of_child (hc : c ∈ t.children id) (h : t.Below c x) : t.Below id x :=
  trans (.child .refl hc) h

section

variable (ht : t.Branching)
include ht

theorem le (h : t.Below id x) : x ≤ id := by
  induction h with
  | refl => exact Nat.le_refl _
  | child _ hc ih => exact Nat.le_trans (Nat.le_of_lt (ht.older hc)) ih

/-- The nodes above a node stand above each other, since a node has one parent. -/
theorem comparable (hx : t.Below c x) (hy : t.Below d x) : t.Below c d ∨ t.Below d c := by
  induction hx with
  | refl => exact .inr hy
  | child hparent hc ih =>
    cases hy with
    | refl => exact .inl (.child hparent hc)
    | child hparent' hc' =>
      obtain rfl := ht.parents_eq hc hc'
      exact ih hparent'

/-- Below one child of a node is nothing that is below another. -/
theorem ne_of_siblings (hc : c ∈ t.children id) (hd : d ∈ t.children id) (hne : c ≠ d)
    (hx : t.Below c x) (hy : t.Below d y) : x ≠ y := by
  have hsibling {c d : NodeId} (hc : c ∈ t.children id) (hd : d ∈ t.children id) (hne : c ≠ d) :
      ¬ t.Below c d := by
    intro hbelow
    cases hbelow with
    | refl => exact hne rfl
    | child hparent hd' =>
      -- The parent of both would stand below one of them.
      obtain rfl := ht.parents_eq hd hd'
      exact Nat.lt_irrefl _ (Nat.lt_of_lt_of_le (ht.older hc) (hparent.le ht))
  rintro rfl
  rcases comparable ht hx hy with hbelow | hbelow
  · exact hsibling hc hd hne hbelow
  · exact hsibling hd hc hne.symm hbelow

end

section

variable (ht : t.Nested text)
include ht

/-- What stands below a node lies within it. -/
theorem within {n : Node} (hn : t.node? id = some n) (h : t.Below id x) :
    ∃ m, t.node? x = some m ∧ n.pos ≤ m.pos ∧ m.stop ≤ n.stop := by
  induction h with
  | refl => exact ⟨n, hn, Nat.le_refl _, Nat.le_refl _⟩
  | @child parent child _ hc ih =>
    obtain ⟨m, hm, hpos, hstop⟩ := ih
    have hparent := ht.parent hc
    obtain ⟨k, hk, hkparent⟩ := Option.bind_eq_some_iff.mp hparent
    obtain ⟨m', hm', hpos', hstop'⟩ := ht.within hk hkparent
    obtain rfl := Option.some.inj (hm.symm.trans hm')
    exact ⟨k, hk, Nat.le_trans hpos hpos', Nat.le_trans hstop' hstop⟩

/-- What stands below nodes that stand one after another does so too. -/
theorem before (hx : t.Below c x) (hy : t.Below d y) (h : t.Before c d) : t.Before x y := by
  obtain ⟨m, n, hm, hn, hle⟩ := h
  obtain ⟨m', hm', -, hstop⟩ := hx.within ht hm
  obtain ⟨n', hn', hpos, -⟩ := hy.within ht hn
  exact ⟨m', n', hm', hn', Nat.le_trans hstop (Nat.le_trans hle hpos)⟩

end

end Below

/-! ### Walks -/

theorem below_of_mem_scopeNodes_go {descend : Node → Bool} {root id x : NodeId} {fuel : Nat}
    (h : x ∈ scopeNodes.go t descend root fuel id) : t.Below id x := by
  induction fuel generalizing id with
  | zero => cases h
  | succ fuel ih =>
    rw [scopeNodes.go] at h
    split at h
    · cases h
    next n hn =>
    split at h
    · cases h
    split at h
    · rcases List.mem_cons.mp h with rfl | hmem
      · exact .refl
      · obtain ⟨child, hchild, hx⟩ := List.mem_flatMap.mp hmem
        rw [← children_of_node? hn] at hchild
        exact .of_child hchild (ih hx)
    · rw [List.mem_singleton.mp h]
      exact .refl

/-- A walk meets no node twice. -/
theorem Branching.nodup_scopeNodes (ht : t.Branching) (descend : Node → Bool) (root : NodeId) :
    (t.scopeNodes descend root).Nodup := by
  have hgo (fuel : Nat) (id : NodeId) : (scopeNodes.go t descend root fuel id).Nodup := by
    induction fuel generalizing id with
    | zero => exact .nil
    | succ fuel ih =>
      rw [scopeNodes.go]
      split
      · exact .nil
      next n hn =>
      split
      · exact .nil
      split
      · rw [← children_of_node? hn]
        refine List.nodup_cons.mpr ⟨fun hmem => ?_, List.pairwise_flatMap.mpr ⟨fun _ _ => ih _, ?_⟩⟩
        · obtain ⟨child, hchild, hid⟩ := List.mem_flatMap.mp hmem
          have hle := (below_of_mem_scopeNodes_go hid).le ht
          exact Nat.lt_irrefl _ (Nat.lt_of_le_of_lt hle (ht.older hchild))
        · refine (ht.nodup id).imp_of_mem fun {c d} hc hd hne x hx y hy => ?_
          exact (below_of_mem_scopeNodes_go hx).ne_of_siblings ht hc hd hne
            (below_of_mem_scopeNodes_go hy)
      · exact List.pairwise_singleton ..
  exact hgo _ root

end Tree

end Unchain.Syntax
