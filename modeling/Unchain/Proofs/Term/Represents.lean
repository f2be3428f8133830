import Mathlib.Data.List.Perm.Subperm
import Unchain.Proofs.Syntax.Growth
import Unchain.Proofs.Term.Basic

/-!
# Terms in trees

`Term.Represents` says that a part of a tree is a term. It looks at the tree
through a function that finds nodes, so that one relation speaks of a tree as it
is and of a tree whose parentheses are looked through
(`Term.represents_bare`). A part is one term at most (`Term.Represents.unique`),
so a path down a term meets no node twice, and no term in a tree is higher than
the tree has nodes (`Term.height_le_size`).
-/

namespace Unchain

namespace Term

open Printer
open Syntax (Data Flags Node NodeId NodeList Tree)

variable {node : Option NodeId → Option Node} {t t' : Tree} {id id' : Option NodeId} {e e' : Term}

/-- A part is a node that holds `data` and belongs to no optional chain. -/
def Holds (node : Option NodeId → Option Node) (id : Option NodeId) (data : Data) : Prop :=
  ∃ n, node id = some n ∧ n.data = data ∧ n.flags.optionalChain = false

/-- A part is a term; `node` finds the node of a part. -/
inductive Represents (node : Option NodeId → Option Node) : Option NodeId → Term → Prop where
  | name {id : Option NodeId} {x : PlainName} (h : Holds node id (.identifier x.text)) :
      Represents node id (.name x)
  | binary {id left right : Option NodeId} {l r : Term} {operator : { k // k ∈ operators }}
      (h : Holds node id (.binary left operator right)) (hleft : Represents node left l)
      (hright : Represents node right r) : Represents node id (.binary l operator r)
  | conditional {id condition whenTrue whenFalse : Option NodeId} {c t f : Term}
      (h : Holds node id (.conditional condition whenTrue whenFalse))
      (hc : Represents node condition c) (ht : Represents node whenTrue t)
      (hf : Represents node whenFalse f) : Represents node id (.conditional c t f)
  | prefixed {id operand : Option NodeId} {e : Term} {sign : { k // k ∈ signs }}
      (h : Holds node id (.prefixed sign operand)) (he : Represents node operand e) :
      Represents node id (.prefixed sign e)
  | suffixed {id operand : Option NodeId} {e : Term} {sign : { k // k ∈ suffixes }}
      (h : Holds node id (.suffixed sign operand)) (he : Represents node operand e) :
      Represents node id (.suffixed sign e)
  | word {id operand : Option NodeId} {e : Term} {kind : { k // k ∈ words }}
      (h : Holds node id (.unary kind operand)) (he : Represents node operand e) :
      Represents node id (.word kind e)
  | call {id callee : Option NodeId} {list : NodeList} {f : Term} {arguments : List Term}
      (h : Holds node id (.call .call callee none (some list)))
      (hcomma : list.trailingComma = false) (hf : Represents node callee f)
      (hlength : list.nodes.length = arguments.length)
      (harguments : ∀ p ∈ list.nodes.zip arguments, Represents node (some p.1) p.2) :
      Represents node id (.call f arguments)
  | property {id object member : Option NodeId} {e : Term} {x : PlainName}
      (h : Holds node id (.access .property object member false))
      (he : Represents node object e) (hmember : Holds node member (.identifier x.text)) :
      Represents node id (.property e x)
  | element {id object member : Option NodeId} {e index : Term}
      (h : Holds node id (.access .element object member false))
      (he : Represents node object e) (hindex : Represents node member index) :
      Represents node id (.element e index)
  | parenthesized {id inner : Option NodeId} {e : Term} (h : Holds node id (.parenthesized inner))
      (he : Represents node inner e) : Represents node id (.parenthesized e)

theorem Holds.eq {d d' : Data} (h : Holds node id d) (h' : Holds node id d') : d = d' := by
  obtain ⟨n, hn, rfl, -⟩ := h
  obtain ⟨n', hn', rfl, -⟩ := h'
  rw [Option.some.inj (hn.symm.trans hn')]

theorem Holds.partData? {d : Data} (h : Holds t.part? id d) : t.partData? id = some d := by
  obtain ⟨n, hn, rfl, -⟩ := h
  cases id with
  | none => cases hn
  | some id => exact Tree.data?_of_node? hn

/-- Nodes stay what they are while a tree grows. -/
theorem Holds.grows {d : Data} (h : Holds t.part? id d) (hg : t.Grows t') :
    Holds t'.part? id d := by
  obtain ⟨n, hn, hd, hf⟩ := h
  cases id with
  | none => cases hn
  | some id =>
    obtain ⟨p, hp⟩ := hg.node hn
    exact ⟨_, hp, hd, hf⟩

/-- A new node holds what was given. -/
theorem holds_add (t : Tree) (d : Data) (pos stop : Nat) {flags : Flags}
    (hflags : flags.optionalChain = false) :
    Holds (t.add d pos stop flags).2.part? (some t.size) d := by
  obtain ⟨p, hp⟩ := Tree.Grows.node?_add_self t d pos stop flags
  exact ⟨_, hp, rfl, hflags⟩

namespace Represents

theorem grows (h : Represents t.part? id e) (hg : t.Grows t') : Represents t'.part? id e := by
  induction h with
  | name h => exact .name (h.grows hg)
  | binary h _ _ ihl ihr => exact .binary (h.grows hg) ihl ihr
  | conditional h _ _ _ ihc iht ihf => exact .conditional (h.grows hg) ihc iht ihf
  | prefixed h _ ih => exact .prefixed (h.grows hg) ih
  | suffixed h _ ih => exact .suffixed (h.grows hg) ih
  | word h _ ih => exact .word (h.grows hg) ih
  | call h hcomma _ hlength _ ihf iha => exact .call (h.grows hg) hcomma ihf hlength iha
  | property h _ hmember ih => exact .property (h.grows hg) ih (hmember.grows hg)
  | element h _ _ ihe ihi => exact .element (h.grows hg) ihe ihi
  | parenthesized h _ ih => exact .parenthesized (h.grows hg) ih

/-- Only the node of the part itself counts, and what stands below it. -/
theorem congr (h : Represents node id e) (hid : node id = node id') : Represents node id' e := by
  have hHolds {d : Data} (h : Holds node id d) : Holds node id' d := by rwa [Holds, ← hid]
  cases h with
  | name h => exact .name (hHolds h)
  | binary h hl hr => exact .binary (hHolds h) hl hr
  | conditional h hc ht hf => exact .conditional (hHolds h) hc ht hf
  | prefixed h he => exact .prefixed (hHolds h) he
  | suffixed h he => exact .suffixed (hHolds h) he
  | word h he => exact .word (hHolds h) he
  | call h hcomma hf hlength ha => exact .call (hHolds h) hcomma hf hlength ha
  | property h he hmember => exact .property (hHolds h) he hmember
  | element h he hi => exact .element (hHolds h) he hi
  | parenthesized h he => exact .parenthesized (hHolds h) he

/-- Two lists whose members are told by the same nodes are the same. -/
theorem eq_of_zip {nodes : List NodeId} {as bs : List Term} (has : nodes.length = as.length)
    (hbs : nodes.length = bs.length) (hb : ∀ p ∈ nodes.zip bs, Represents node (some p.1) p.2)
    (ha : ∀ p ∈ nodes.zip as, ∀ b, Represents node (some p.1) b → p.2 = b) : as = bs := by
  induction nodes generalizing as bs with
  | nil =>
    rw [List.length_eq_zero_iff.mp has.symm, List.length_eq_zero_iff.mp hbs.symm]
  | cons id nodes ih =>
    cases as with
    | nil => cases has
    | cons a as =>
      cases bs with
      | nil => cases hbs
      | cons b bs =>
        rw [List.zip_cons_cons, List.forall_mem_cons] at ha hb
        obtain rfl : a = b := ha.1 b hb.1
        rw [ih (Nat.succ.inj has) (Nat.succ.inj hbs) hb.2 ha.2]

/-- A part is one term at most. -/
theorem unique (h : Represents node id e) (h' : Represents node id e') : e = e' := by
  -- A node has one data, which tells the constructor; the parts are the same by induction.
  induction h generalizing e' with
  | name h =>
    cases h' with
    | @name _ x' h' =>
      have hx := Data.identifier.inj (h.eq h')
      rw [PlainName.eq_of_text_eq hx]
    | _ => cases h.eq ‹_›
  | binary h _ _ ihl ihr =>
    cases h' with
    | binary h' hl hr =>
      obtain ⟨rfl, hk, rfl⟩ := Data.binary.inj (h.eq h')
      rw [ihl hl, ihr hr, Subtype.ext hk]
    | _ => cases h.eq ‹_›
  | conditional h _ _ _ ihc iht ihf =>
    cases h' with
    | conditional h' hc ht hf =>
      obtain ⟨rfl, rfl, rfl⟩ := Data.conditional.inj (h.eq h')
      rw [ihc hc, iht ht, ihf hf]
    | _ => cases h.eq ‹_›
  | prefixed h _ ih =>
    cases h' with
    | prefixed h' he =>
      obtain ⟨hk, rfl⟩ := Data.prefixed.inj (h.eq h')
      rw [ih he, Subtype.ext hk]
    | _ => cases h.eq ‹_›
  | suffixed h _ ih =>
    cases h' with
    | suffixed h' he =>
      obtain ⟨hk, rfl⟩ := Data.suffixed.inj (h.eq h')
      rw [ih he, Subtype.ext hk]
    | _ => cases h.eq ‹_›
  | word h _ ih =>
    cases h' with
    | word h' he =>
      obtain ⟨hk, rfl⟩ := Data.unary.inj (h.eq h')
      rw [ih he, Subtype.ext hk]
    | _ => cases h.eq ‹_›
  | call h _ _ hlength _ ihf iha =>
    cases h' with
    | call h' _ hf hlength' ha =>
      obtain ⟨-, rfl, -, hlist⟩ := Data.call.inj (h.eq h')
      obtain rfl := Option.some.inj hlist
      rw [ihf hf, eq_of_zip hlength hlength' ha fun p hp a => iha p hp]
    | _ => cases h.eq ‹_›
  | property h _ hmember ih =>
    cases h' with
    | property h' he hmember' =>
      obtain ⟨-, rfl, rfl, -⟩ := Data.access.inj (h.eq h')
      have hx := Data.identifier.inj (hmember.eq hmember')
      rw [ih he, PlainName.eq_of_text_eq hx]
    | _ => cases h.eq ‹_›
  | element h _ _ ihe ihi =>
    cases h' with
    | element h' he hi =>
      obtain ⟨-, rfl, rfl, -⟩ := Data.access.inj (h.eq h')
      rw [ihe he, ihi hi]
    | _ => cases h.eq ‹_›
  | parenthesized h _ ih =>
    cases h' with
    | parenthesized h' he =>
      obtain rfl := Data.parenthesized.inj (h.eq h')
      rw [ih he]
    | _ => cases h.eq ‹_›

/-- A term that is no leaf has a part that is lower by one; it is a child of the term's node. -/
theorem exists_part (h : Represents node id e) : e.height = 1 ∨
    ∃ id' e' d, Represents node id' e' ∧ e'.height + 1 = e.height ∧ Holds node id d ∧
      id'.toList ⊆ d.children := by
  cases h with
  | name => exact .inl rfl
  | @binary _ left right l r _ hd hl hr =>
    rcases Nat.le_total l.height r.height with hle | hle
    · exact .inr ⟨right, r, _, hr, by simp only [height]; omega, hd, by simp [Data.children]⟩
    · exact .inr ⟨left, l, _, hl, by simp only [height]; omega, hd, by simp [Data.children]⟩
  | @conditional _ condition whenTrue whenFalse c t f hd hc ht hf =>
    have hmax : c.height + 1 = (Term.conditional c t f).height ∨
        t.height + 1 = (Term.conditional c t f).height ∨
        f.height + 1 = (Term.conditional c t f).height := by
      simp only [height]
      omega
    rcases hmax with hmax | hmax | hmax
    · exact .inr ⟨condition, c, _, hc, hmax, hd, by simp [Data.children]⟩
    · exact .inr ⟨whenTrue, t, _, ht, hmax, hd, by simp [Data.children]⟩
    · exact .inr ⟨whenFalse, f, _, hf, hmax, hd, by simp [Data.children]⟩
  | prefixed hd he | suffixed hd he | word hd he | property hd he | parenthesized hd he =>
    exact .inr ⟨_, _, _, he, rfl, hd, by simp [Data.children]⟩
  | @call _ callee list f arguments hd _ hf hlength ha =>
    rcases Nat.lt_or_ge f.height (argumentsHeight arguments) with hlt | hle
    · have hne : arguments ≠ [] := by
        rintro rfl
        exact absurd hlt (Nat.not_lt_zero _)
      obtain ⟨a, hmem, ha'⟩ := exists_height_eq_argumentsHeight hne
      obtain ⟨p, hp, rfl⟩ : ∃ p ∈ list.nodes.zip arguments, p.2 = a := by
        rw [← List.map_snd_zip (Nat.le_of_eq hlength.symm)] at hmem
        exact List.mem_map.mp hmem
      refine .inr ⟨some p.1, p.2, _, ha p hp, by simp only [height]; omega, hd, ?_⟩
      simp [Data.children, Data.listNodes, (List.of_mem_zip hp).1]
    · exact .inr ⟨callee, f, _, hf, by simp only [height]; omega, hd, by simp [Data.children]⟩
  | @element _ object member o i hd he hi =>
    rcases Nat.le_total o.height i.height with hle | hle
    · exact .inr ⟨member, i, _, hi, by simp only [height]; omega, hd, by simp [Data.children]⟩
    · exact .inr ⟨object, o, _, he, by simp only [height]; omega, hd, by simp [Data.children]⟩

theorem isNode (h : Represents node id e) : ∃ n, node id = some n := by
  cases h <;> exact ⟨_, (‹Holds node id _›).choose_spec.1⟩

theorem exists_eq_some (h : Represents t.part? id e) : ∃ i, id = some i := by
  obtain ⟨n, hn⟩ := h.isNode
  cases id with
  | none => cases hn
  | some i => exact ⟨i, rfl⟩

end Represents

/-! ### Height -/

/-- The nodes on a longest way down a term are different. -/
theorem exists_path {n : Nat} (hn : e.height = n) (h : Represents t.part? id e) :
    ∃ path : List NodeId, path.Nodup ∧ path.length = n ∧
      ∀ i ∈ path, i < t.size ∧ ∃ e', Represents t.part? (some i) e' ∧ e'.height ≤ n := by
  induction n generalizing id e with
  | zero => exact absurd hn (Nat.ne_of_gt e.height_pos)
  | succ n ih =>
    obtain ⟨id, rfl⟩ := h.exists_eq_some
    obtain ⟨node, hnode⟩ := h.isNode
    have hlt : id < t.size := Tree.lt_size_of_node? hnode
    rcases h.exists_part with hleaf | ⟨id', e', -, h', hheight, -⟩
    · obtain rfl : n = 0 := by omega
      refine ⟨[id], by simp, rfl, fun i hi => ?_⟩
      rw [List.mem_singleton.mp hi]
      exact ⟨hlt, e, h, by omega⟩
    · obtain ⟨path, hnodup, hlength, hpath⟩ := ih (by omega) h'
      refine ⟨id :: path, List.nodup_cons.mpr ⟨fun hmem => ?_, hnodup⟩, by simp [hlength], ?_⟩
      · -- What stands below is lower, so it is not the term itself.
        obtain ⟨-, e'', h'', hle⟩ := hpath id hmem
        rw [← h.unique h''] at hle
        omega
      · refine List.forall_mem_cons.mpr ⟨⟨hlt, e, h, by omega⟩, fun i hi => ?_⟩
        obtain ⟨hi, e'', h'', hle⟩ := hpath i hi
        exact ⟨hi, e'', h'', by omega⟩

/-- A tree has a node for every term on a way down. -/
theorem height_le_size (h : Represents t.part? id e) : e.height ≤ t.size := by
  obtain ⟨path, hnodup, hlength, hpath⟩ := exists_path rfl h
  have hsub : path ⊆ List.range t.size := fun i hi => List.mem_range.mpr (hpath i hi).1
  have hle := (hnodup.subperm hsub).length_le
  rw [List.length_range] at hle
  omega

/-! ### Looking through parentheses -/

/-- A node that is no parentheses is found where it is. -/
theorem Holds.skipParentheses_go {d : Data} (h : Holds t.part? id d)
    (hd : ∀ e, d ≠ .parenthesized e) (fuel : Nat) : Tree.skipParentheses.go t fuel id = id := by
  cases fuel with
  | zero => rfl
  | succ fuel =>
    rw [Tree.skipParentheses.go, h.partData?]
    split
    · next e he => exact absurd (Option.some.inj he) (hd e)
    · rfl

theorem Holds.skipped {d : Data} (h : Holds t.part? id d) (hd : ∀ e, d ≠ .parenthesized e) :
    Holds (fun id => t.part? (t.skipParentheses id)) id d := by
  rwa [Holds, Tree.skipParentheses, h.skipParentheses_go hd]

/-- How far the search for parentheses may go makes no difference. -/
theorem skipParentheses_go_congr (h : Represents t.part? id e) {fuel fuel' : Nat}
    (hfuel : e.height ≤ fuel) (hfuel' : e.height ≤ fuel') :
    Tree.skipParentheses.go t fuel id = Tree.skipParentheses.go t fuel' id := by
  induction h generalizing fuel fuel' with
  | parenthesized h _ ih =>
    simp only [height] at hfuel hfuel'
    obtain ⟨fuel, rfl⟩ : ∃ n, fuel = n + 1 := ⟨fuel - 1, by omega⟩
    obtain ⟨fuel', rfl⟩ : ∃ n, fuel' = n + 1 := ⟨fuel' - 1, by omega⟩
    simp only [Tree.skipParentheses.go, h.partData?]
    exact ih (by omega) (by omega)
  | name h | binary h | conditional h | prefixed h | suffixed h | word h | call h | property h
  | element h => rw [h.skipParentheses_go (by simp), h.skipParentheses_go (by simp)]

/-- Looking through the parentheses of a tree shows the term without its parentheses. -/
theorem represents_bare (h : Represents t.part? id e) :
    Represents (fun id => t.part? (t.skipParentheses id)) id e.bare := by
  induction h with
  | name h => exact .name (h.skipped (by simp))
  | binary h _ _ ihl ihr => exact .binary (h.skipped (by simp)) ihl ihr
  | conditional h _ _ _ ihc iht ihf => exact .conditional (h.skipped (by simp)) ihc iht ihf
  | prefixed h _ ih => exact .prefixed (h.skipped (by simp)) ih
  | suffixed h _ ih => exact .suffixed (h.skipped (by simp)) ih
  | word h _ ih => exact .word (h.skipped (by simp)) ih
  | @call _ _ list _ arguments h hcomma _ hlength _ ihf iha =>
    refine .call (h.skipped (by simp)) hcomma ihf (by rwa [bareArguments_eq, List.length_map]) ?_
    rw [bareArguments_eq, List.zip_map_right]
    intro p hp
    obtain ⟨q, hq, rfl⟩ := List.mem_map.mp hp
    exact iha q hq
  | property h _ hmember ih => exact .property (h.skipped (by simp)) ih (hmember.skipped (by simp))
  | element h _ _ ihe ihi => exact .element (h.skipped (by simp)) ihe ihi
  | @parenthesized id inner e h he ih =>
    refine ih.congr ?_
    have hheight := height_le_size he
    have hskip : t.skipParentheses id = Tree.skipParentheses.go t t.size inner := by
      rw [Tree.skipParentheses, Tree.skipParentheses.go, h.partData?]
    show t.part? (t.skipParentheses inner) = t.part? (t.skipParentheses id)
    rw [hskip, Tree.skipParentheses, skipParentheses_go_congr he (by omega) hheight]

end Term

end Unchain
