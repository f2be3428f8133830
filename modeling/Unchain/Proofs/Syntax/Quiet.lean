import Unchain.Proofs.Syntax.Rows
import Unchain.Proofs.Syntax.Scope

/-!
# Where statements stand

Statements stand in statements and in the bodies of functions, and nowhere else:
below an expression there is no statement that is not in a function or a class of
its own. `Data.isQuiet` tells the constructs of which this is to hold, and
`Data.quietParts` which parts of a construct have to be quiet.

`Calm` says so of the nodes of a tree, together with their order as far as it is
known of any text: a node starts where its parent does or later, and if statements
stand below two children of a node, the names below the first come before the
second. It does not say where nodes end, which depends on the text being without
errors, and holds without any assumption about that.

All of this stays true when nodes are added (`CalmAt.grows`, `Calm.add`). What it
comes to is that no statement is `Owned` by a function but through its body, and
through statements that can hold another one.
-/

namespace Unchain.Syntax

namespace Data

/-- Whether a construct has no statements among its parts and is not made of an expression as one.
Functions and classes are quiet: their statements are not those of the function around them. -/
def isQuiet : Data → Bool
  | block .. | expressionStatement .. | leave .. | ifStatement .. | loop .. | iteration ..
  | tryStatement .. | catchClause .. | switch .. | clause .. | labeled .. | sourceFile .. => false
  | _ => true

/-- The parts that have to be quiet. -/
def quietParts : Data → List NodeId
  | function _ f =>
    listNodes f.modifiers ++ f.name.toList ++ f.typeParameters.toList ++ f.parameters.nodes ++
      f.declaredType.toList
  | expressionStatement _ e | leave _ e => e.toList
  | data => if data.isQuiet then data.children else []

/-- A name, private or not. -/
def isName : Data → Bool
  | identifier _ | privateIdentifier _ => true
  | _ => false

/-- A name has no parts. -/
theorem children_of_isName {data : Data} (h : data.isName = true) :
    data.isQuiet = true ∧ data.children = [] := by
  cases data with
  | identifier | privateIdentifier => exact ⟨rfl, rfl⟩
  | _ => cases h

theorem quietParts_of_isQuiet {data : Data} (hq : data.isQuiet = true)
    (hf : data.isFunction = false) : data.quietParts = data.children := by
  cases data with
  | function => cases hf
  | expressionStatement | leave => cases hq
  | _ => first | rfl | cases hq

theorem children_function (k : FunctionKind) (f : Function) :
    (function k f).children = (function k f).quietParts ++ f.body.toList := rfl

/-- What has to be quiet is a child. -/
theorem quietParts_subset (data : Data) : data.quietParts ⊆ data.children := by
  cases data with
  | function => exact fun _ h => List.mem_append_left _ h
  | _ => simp [quietParts, isQuiet, children]

end Data

namespace Tree

/-! ### Trees of which it holds -/

/-- No statement stands below the node, unless in a function or a class. -/
def Quiet (t : Tree) (id : NodeId) : Prop := ∃ data, t.data? id = some data ∧ data.isQuiet = true

/-- The node starts at an offset or later. -/
def IsFrom (t : Tree) (offset : Nat) (id : NodeId) : Prop :=
  ∃ n, t.node? id = some n ∧ offset ≤ n.pos

/-- The names below the first node come before the second one, if there are statements below
both. -/
def Apart (t : Tree) (a b : NodeId) : Prop :=
  t.Quiet a ∨ t.Quiet b ∨ ∀ ⦃x m n⦄, t.Below a x → t.node? x = some m → m.data.isName = true →
    t.node? b = some n → m.pos < n.pos

/-- A construct that starts at an offset, with its parts where they should be. -/
structure CalmAt (t : Tree) (data : Data) (offset : Nat) : Prop where
  starts : ∀ child ∈ data.children, t.IsFrom offset child
  quiet : ∀ part ∈ data.quietParts, t.Quiet part
  apart : data.children.Pairwise t.Apart

/-- All nodes have their parts where they should be. -/
def Calm (t : Tree) : Prop := ∀ ⦃id n⦄, t.node? id = some n → t.CalmAt n.data n.pos

/-- All names start before an offset. -/
def NamesBefore (t : Tree) (offset : Nat) : Prop :=
  ∀ ⦃id n⦄, t.node? id = some n → n.data.isName = true → n.pos < offset

variable {t t' : Tree} {a b c id x : NodeId} {data : Data} {lo offset pos stop : Nat}
  {flags : Flags}

theorem IsFrom.mono (h : t.IsFrom offset id) (hlo : lo ≤ offset) : t.IsFrom lo id := by
  obtain ⟨n, hn, hpos⟩ := h
  exact ⟨n, hn, Nat.le_trans hlo hpos⟩

theorem Calm.child_isFrom (ht : t.Calm) {n : Node} (hn : t.node? id = some n)
    (hc : c ∈ t.children id) : t.IsFrom n.pos c := by
  rw [children_of_node? hn] at hc
  exact (ht hn).starts c hc

/-- What stands below a node starts where it does or later. -/
theorem Below.isFrom (ht : t.Calm) {n : Node} (hn : t.node? id = some n) (h : t.Below id x) :
    t.IsFrom n.pos x := by
  induction h with
  | refl => exact ⟨n, hn, Nat.le_refl _⟩
  | child _ hc ih =>
    obtain ⟨m, hm, hpos⟩ := ih
    exact (ht.child_isFrom hm hc).mono hpos

/-- What has to be quiet is so below it, up to the functions and classes there. -/
theorem Quiet.child (ht : t.Calm) (h : t.Quiet id) (hf : t.isFunction id = false)
    (hc : c ∈ t.children id) : t.Quiet c := by
  obtain ⟨data, hdata, hq⟩ := h
  obtain ⟨n, hn, rfl⟩ := Option.map_eq_some_iff.mp hdata
  rw [isFunction, hdata, Option.any_some] at hf
  rw [children_of_node? hn, ← Data.quietParts_of_isQuiet hq hf] at hc
  exact (ht hn).quiet c hc

/-! ### Growing -/

theorem Quiet.grows (h : t.Quiet id) (hg : t.Grows t') : t'.Quiet id := by
  obtain ⟨data, hdata, hq⟩ := h
  exact ⟨data, hg.data? hdata, hq⟩

theorem IsFrom.grows (h : t.IsFrom offset id) (hg : t.Grows t') : t'.IsFrom offset id := by
  obtain ⟨n, hn, hpos⟩ := h
  obtain ⟨p, hp⟩ := hg.node hn
  exact ⟨_, hp, hpos⟩

/-- Nodes that are added stand below no older one. -/
theorem Below.of_grows (ht : t.Calm) (hg : t.Grows t') {n : Node} (hn : t.node? a = some n)
    (h : t'.Below a x) : t.Below a x ∧ ∃ m p, t.node? x = some m ∧
      t'.node? x = some { m with parent := p } := by
  induction h with
  | refl =>
    obtain ⟨p, hp⟩ := hg.node hn
    exact ⟨.refl, n, p, hn, hp⟩
  | child _ hc ih =>
    obtain ⟨hbelow, m, p, hm, hm'⟩ := ih
    -- The node above is as it was, and all its children were there with it.
    rw [children_of_node? hm'] at hc
    rw [← children_of_node? hm] at hc
    obtain ⟨k, hk, -⟩ := ht.child_isFrom hm hc
    obtain ⟨q, hq⟩ := hg.node hk
    exact ⟨.child hbelow hc, k, q, hk, hq⟩

theorem Apart.grows (ht : t.Calm) (h : t.Apart a b) (ha : t.IsFrom lo a) (hb : t.IsFrom lo b)
    (hg : t.Grows t') : t'.Apart a b := by
  rcases h with hquiet | hquiet | hnames
  · exact .inl (hquiet.grows hg)
  · exact .inr (.inl (hquiet.grows hg))
  · refine .inr (.inr fun x m n hbelow hm hname hn => ?_)
    obtain ⟨k, hk, -⟩ := ha
    obtain ⟨k', hk', -⟩ := hb
    obtain ⟨hbelow, m', p, hm', hx⟩ := hbelow.of_grows ht hg hk
    obtain ⟨q, hq⟩ := hg.node hk'
    obtain rfl := Option.some.inj (hm.symm.trans hx)
    obtain rfl := Option.some.inj (hn.symm.trans hq)
    have hlt : m'.pos < k'.pos := hnames hbelow hm' hname hk'
    exact hlt

theorem CalmAt.grows (ht : t.Calm) (h : t.CalmAt data offset) (hg : t.Grows t') :
    t'.CalmAt data offset where
  starts child hc := (h.starts child hc).grows hg
  quiet part hpart := (h.quiet part hpart).grows hg
  apart := h.apart.imp_of_mem fun ha hb hapart =>
    hapart.grows ht (h.starts _ ha) (h.starts _ hb) hg

/-- After a node was added, a node is the new one or is as it was, but for its parent. -/
theorem node?_add_cases {n : Node} (h : (t.add data pos stop flags).2.node? id = some n) :
    (n.data = data ∧ n.pos = pos) ∨
      ∃ m, t.node? id = some m ∧ n.data = m.data ∧ n.pos = m.pos := by
  have hlt := lt_size_of_node? h
  rw [size_add] at hlt
  rcases Nat.lt_or_eq_of_le (Nat.le_of_lt_succ hlt) with hold | rfl
  · obtain ⟨m, hm⟩ := node?_eq_some_of_lt hold
    obtain ⟨p, hp⟩ := (Grows.add t data pos stop flags).node hm
    obtain rfl := Option.some.inj (h.symm.trans hp)
    exact .inr ⟨m, hm, rfl, rfl⟩
  · obtain ⟨p, hp⟩ := Grows.node?_add_self t data pos stop flags
    obtain rfl := Option.some.inj (h.symm.trans hp)
    exact .inl ⟨rfl, rfl⟩

/-- A node is added whose parts are where they should be. -/
theorem Calm.add (ht : t.Calm) (h : t.CalmAt data pos) :
    (t.add data pos stop flags).2.Calm := by
  have hg : t.Grows (t.add data pos stop flags).2 := .add t data pos stop flags
  intro id n hn
  rcases node?_add_cases hn with ⟨hdata, hpos⟩ | ⟨m, hm, hdata, hpos⟩
  · rw [hdata, hpos]
    exact h.grows ht hg
  · rw [hdata, hpos]
    exact (ht hm).grows ht hg

theorem NamesBefore.mono (h : t.NamesBefore lo) (hle : lo ≤ offset) : t.NamesBefore offset :=
  fun _ _ hn hname => Nat.lt_of_lt_of_le (h hn hname) hle

theorem NamesBefore.add (h : t.NamesBefore offset) (hname : data.isName = true → pos < offset) :
    (t.add data pos stop flags).2.NamesBefore offset := by
  intro id n hn hn'
  rcases node?_add_cases hn with ⟨hdata, hpos⟩ | ⟨m, hm, hdata, hpos⟩
  · rw [hpos]
    exact hname (hdata ▸ hn')
  · rw [hpos]
    exact h hm (hdata ▸ hn')

/-- A node that comes after all names is apart from every older one. -/
theorem apart_of_namesBefore (ht : t.Calm) (hnames : t.NamesBefore offset) (hg : t.Grows t')
    (ha : t.IsFrom lo a) (hb : t'.IsFrom offset b) : t'.Apart a b := by
  refine .inr (.inr fun x m n hbelow hm hname hn => ?_)
  obtain ⟨k, hk, -⟩ := ha
  obtain ⟨k', hk', hpos⟩ := hb
  obtain ⟨-, m', p, hm', hx⟩ := hbelow.of_grows ht hg hk
  obtain rfl := Option.some.inj (hm.symm.trans hx)
  obtain rfl := Option.some.inj (hn.symm.trans hk')
  have hlt : m'.pos < offset := hnames hm' hname
  exact Nat.lt_of_lt_of_le hlt hpos

/-! ### The statements of a function -/

/-- The nearest function or class around a node is `owner`: the node is a child of it, or of a node
of which this holds and that is neither. -/
inductive Owned (t : Tree) (owner : NodeId) : NodeId → Prop where
  | child {id : NodeId} (hc : id ∈ t.children owner) : Owned t owner id
  | within {outer id : NodeId} (h : Owned t owner outer) (hf : t.isFunction outer = false)
      (hclass : t.isClass outer = false) (hc : id ∈ t.children outer) : Owned t owner id

section

variable {descend : Node → Bool} {root owner body : NodeId} {n : Node}

theorem isFunction_of_node? (hn : t.node? id = some n) : t.isFunction id = n.data.isFunction := by
  rw [isFunction, data?_of_node? hn, Option.any_some]

theorem isClass_of_node? (hn : t.node? id = some n) : t.isClass id = n.data.isClass := by
  rw [isClass, data?_of_node? hn, Option.any_some]

theorem Entered.isFunction (h : t.Entered root id n) (hroot : t.isFunction root = false) :
    t.isFunction id = false := by
  obtain ⟨hn, rfl | ⟨hf, -⟩⟩ := h
  · exact hroot
  · rw [isFunction_of_node? hn, hf]

theorem Entered.isClass (h : t.Entered root id n) (hroot : t.isClass root = false) :
    t.isClass id = false := by
  obtain ⟨hn, rfl | ⟨-, hclass⟩⟩ := h
  · exact hroot
  · rw [isClass_of_node? hn, hclass]

/-- A walk that gets to a node gets to its children. -/
theorem Meets.next {m : Node} (h : t.Meets descend root id x) (hx : t.node? x = some n)
    (hdescend : descend n = true) (hc : c ∈ n.data.children) (hm : t.Entered root c m) :
    t.Meets descend root id c := by
  induction h with
  | here hn =>
    obtain rfl := Option.some.inj (hx.symm.trans hn.1)
    exact .child hn hdescend hc (.here hm)
  | child hn hd hmem _ ih => exact .child hn hd hmem (ih hx)

/-- A walk meets what belongs to the function that it starts in. -/
theorem Meets.owned (h : t.Meets descend root id x) (hf : t.isFunction root = false)
    (hclass : t.isClass root = false) (hid : t.Owned owner id) : t.Owned owner x := by
  induction h with
  | here => exact hid
  | child hn _ hc _ ih =>
    rw [← children_of_node? hn.1] at hc
    exact ih (.within hid (hn.isFunction hf) (hn.isClass hclass) hc)

/-- From a quiet node a walk meets quiet nodes only. -/
theorem Meets.quiet (ht : t.Calm) (h : t.Meets descend root id x)
    (hf : t.isFunction root = false) (hid : t.Quiet id) : t.Quiet x := by
  induction h with
  | here => exact hid
  | child hn _ hc _ ih =>
    rw [← children_of_node? hn.1] at hc
    exact ih (hid.child ht (hn.isFunction hf) hc)

/-- What belongs to a function and is not quiet is met from the body of the function on, if a walk
stops only where all parts have to be quiet. -/
theorem Owned.meets (ht : t.Calm) {k : FunctionKind} {parts : Function}
    (howner : t.data? owner = some (.function k parts)) (hbody : parts.body = some body)
    (hdescend : ∀ n, descend n = false → n.data.children ⊆ n.data.quietParts)
    (h : t.Owned owner x) (hx : ¬ t.Quiet x) : t.Meets descend body body x := by
  induction h with
  | child hc =>
    obtain ⟨n, hn, hdata⟩ := Option.map_eq_some_iff.mp howner
    rw [children_of_node? hn] at hc
    obtain ⟨m, hm, -⟩ := (ht hn).starts _ hc
    rw [hdata, Data.children_function, hbody] at hc
    -- All parts of the function but its body are quiet.
    rcases List.mem_append.mp hc with hquiet | hbody
    · exact absurd ((ht hn).quiet _ (hdata ▸ hquiet)) hx
    · obtain rfl := List.mem_singleton.mp hbody
      exact .here ⟨hm, .inl rfl⟩
  | @within outer id _ hf hclass hc ih =>
    have houter : ¬ t.Quiet outer := fun hq => hx (hq.child ht hf hc)
    obtain ⟨n, hn⟩ := node?_of_mem_children hc
    rw [children_of_node? hn] at hc
    obtain ⟨m, hm, -⟩ := (ht hn).starts _ hc
    -- Where the walk stops the node would be quiet.
    have hgoes : descend n = true := by
      by_contra hstop
      rw [Bool.not_eq_true] at hstop
      exact hx ((ht hn).quiet _ (hdescend n hstop hc))
    -- Functions and classes are quiet, so the walk enters the node.
    have hentered : t.Entered body id m := by
      have hloud : m.data.isQuiet = false := by
        rw [← Bool.not_eq_true]
        exact fun hq => hx ⟨m.data, data?_of_node? hm, hq⟩
      refine ⟨hm, .inr ⟨?_, ?_⟩⟩
      · cases hd : m.data <;> simp_all [Data.isQuiet, Data.isFunction]
      · cases hd : m.data <;> simp_all [Data.isQuiet, Data.isClass]
    exact (ih houter).next hn hgoes hc hentered

/-! ### The order of a walk -/

/-- A node starts before another one. -/
def StartsBefore (t : Tree) (a b : NodeId) : Prop :=
  ∃ m n, t.node? a = some m ∧ t.node? b = some n ∧ m.pos < n.pos

/-- A statement with a name below it. -/
def HasName (t : Tree) (id : NodeId) : Prop :=
  ∃ x n, t.Below id x ∧ t.node? x = some n ∧ n.data.isName = true

theorem Apart.startsBefore {y : NodeId} (ht : t.Calm) (h : t.Apart a b) (ha : ¬ t.Quiet a)
    (hb : ¬ t.Quiet b) (hx : t.Below a x) (hy : t.Below b y) (hname : t.HasName x)
    (hbnode : t.node? b = some n) (hxnode : ∃ m, t.node? x = some m) : t.StartsBefore x y := by
  obtain ⟨m, hm⟩ := hxnode
  obtain ⟨z, k, hz, hk, hkname⟩ := hname
  obtain ⟨k', hk', hle⟩ := hz.isFrom ht hm
  obtain rfl := Option.some.inj (hk.symm.trans hk')
  obtain ⟨l, hl, hle'⟩ := hy.isFrom ht hbnode
  have hnames := (h.resolve_left ha).resolve_left hb
  have hlt : k.pos < n.pos := hnames (hx.trans hz) hk hkname hbnode
  exact ⟨m, l, hm, hl, by omega⟩

/-- Statements with names are met in the order of the text, if the walk stops at them. -/
theorem Calm.pairwise_scopeNodes (ht : t.Calm) (hf : t.isFunction root = false) {p : NodeId → Prop}
    (hloud : ∀ x, p x → ¬ t.Quiet x) (hname : ∀ x, p x → t.HasName x)
    (hstop : ∀ x n, t.node? x = some n → p x → descend n = false) :
    (t.scopeNodes descend root).Pairwise fun x y => p x → p y → t.StartsBefore x y := by
  have hgo (fuel : Nat) (id : NodeId) : (scopeNodes.go t descend root fuel id).Pairwise
      fun x y => p x → p y → t.StartsBefore x y := by
    -- By induction on the fuel, which the walks from the children of a node have less of.
    induction fuel generalizing id with
    | zero => exact .nil
    | succ fuel ih =>
      rw [scopeNodes.go]
      split
      · exact .nil
      next n hn =>
      split
      · exact .nil
      split
      · next hdescend =>
        refine List.pairwise_cons.mpr
          ⟨fun y _ hid => ?_, List.pairwise_flatMap.mpr ⟨fun _ _ => ih _, ?_⟩⟩
        · exact absurd hdescend (by rw [hstop id n hn hid]; exact Bool.false_ne_true)
        · -- Two nodes below different children: there are statements below both children, so the
          -- names below the first one come before the second one.
          refine (ht hn).apart.imp_of_mem fun {c d} hc hd hapart x hx y hy hpx hpy => ?_
          have hxmeets := meets_of_go hx
          have hymeets := meets_of_go hy
          have hc' : ¬ t.Quiet c := fun hq => hloud x hpx (hxmeets.quiet ht hf hq)
          have hd' : ¬ t.Quiet d := fun hq => hloud y hpy (hymeets.quiet ht hf hq)
          obtain ⟨k, hk, -⟩ := (ht hn).starts c hc
          obtain ⟨l, hl, -⟩ := (ht hn).starts d hd
          have hxbelow := below_of_mem_scopeNodes_go hx
          obtain ⟨m, hm, -⟩ := hxbelow.isFrom ht hk
          exact hapart.startsBefore ht hc' hd' hxbelow (below_of_mem_scopeNodes_go hy)
            (hname x hpx) hl ⟨m, hm⟩
      · exact List.pairwise_singleton ..
  exact hgo _ root

end

end Tree

end Unchain.Syntax
