import Unchain.Proofs.Chain.Spine
import Unchain.Proofs.Syntax.Scope
import Unchain.Proofs.Unroll.Undo

/-!
# Returns inside of a `try`

A promise that is returned from the block of a `try` fails when the function has
been left, so its `catch` would not see that. `Guarded` says of a statement that
was written or kept that no return of it passes by a `catch` in this way: it
awaits what it returns, or returns an expression of the source that gives no
promise (`ReturnsSafely`). That stays so while other statements are written
(`Guarded.evolves`).

`Encloses` is what it means for a statement to stand in another one; a walk meets
all returns that stand in a statement (`mem_returnsBelow`).
-/

namespace Unchain

open Naming (Key)
open Promise (Oracle)
open Syntax (Data Function Node NodeId NodeList Tree)

namespace Syntax

/-- Statements that hold other statements of the same function, and the parts of such statements
that do. -/
def Data.nests : Data → Bool
  | .block .. | .ifStatement .. | .loop .. | .iteration .. | .tryStatement .. | .catchClause ..
  | .switch .. | .clause .. | .labeled .. => true
  | _ => false

/-- What a `try` is put together from, apart from the statements in it. -/
def Data.isTryPart : Data → Bool
  | .block .. | .catchClause .. | .variableDeclaration .. => true
  | _ => false

theorem Data.ne_leave_of_nests {d : Data} (h : d.nests = true) (kind : LeaveKind)
    (e : Option NodeId) : d ≠ .leave kind e := by
  rintro rfl
  cases h

theorem Data.not_scope_of_nests {d : Data} (h : d.nests = true) :
    d.isFunction = false ∧ d.isClass = false := by
  cases d <;> first | exact ⟨rfl, rfl⟩ | cases h

namespace Tree

/-- The statement `inner` stands in the statement `outer`, in no function or class between. -/
inductive Encloses (t : Tree) : (outer inner : NodeId) → Prop
  | refl {id : NodeId} : Encloses t id id
  | step {id child inner : NodeId} {d : Data} (hd : t.data? id = some d) (hnests : d.nests = true)
      (hc : child ∈ d.children) (h : Encloses t child inner) : Encloses t id inner

namespace Encloses

variable {t t' : Tree} {outer inner : NodeId}

theorem lt_size (ht : t.Closed) (h : t.Encloses outer inner) (houter : outer < t.size) :
    inner < t.size := by
  induction h with
  | refl => exact houter
  | step hd _ hc _ ih => exact ih (ht.child_lt hd hc)

theorem evolves (h : t.Encloses outer inner) (hgrow : t.Evolves t') : t'.Encloses outer inner := by
  induction h with
  | refl => exact .refl
  | step hd hnests hc _ ih =>
      exact .step (hgrow.data? hd fun e => Data.ne_leave_of_nests hnests _ _) hnests hc ih

/-- Nothing comes to stand in a statement of the source. -/
theorem before (ht : t.Closed) (hgrow : t.Evolves t') (h : t'.Encloses outer inner)
    (houter : outer < t.size) : t.Encloses outer inner := by
  induction h with
  | refl => exact .refl
  | step hd hnests hc _ ih =>
      have hbefore := hgrow.data?_before houter hd fun e => Data.ne_leave_of_nests hnests _ _
      exact .step hbefore hnests hc (ih (ht.child_lt hbefore hc))

end Encloses

end Tree

end Syntax

namespace Unroll

/-! ### Walks to returns -/

section

variable {t : Tree} {outer id : NodeId} {e : Option NodeId}

theorem isReturn_iff {n : Node} : isReturn n = true ↔ ∃ e, n.data = .leave .returns e := by
  unfold isReturn
  split
  · next e he => exact ⟨fun _ => ⟨e, he⟩, fun _ => rfl⟩
  · next hne => exact ⟨nofun, fun ⟨e, he⟩ => absurd he (hne e)⟩

/-- The walk that looks for returns gets to every return in a statement. -/
theorem meets_of_encloses (root : NodeId) (h : t.Encloses outer id)
    (hreturn : t.data? id = some (.leave .returns e)) :
    t.Meets (!isReturn ·) root outer id := by
  induction h with
  | refl =>
      obtain ⟨n, hn, hdata⟩ := Option.map_eq_some_iff.mp hreturn
      exact .here ⟨hn, .inr (by rw [hdata]; exact ⟨rfl, rfl⟩)⟩
  | step hd hnests hc _ ih =>
      obtain ⟨n, hn, rfl⟩ := Option.map_eq_some_iff.mp hd
      refine .child ⟨hn, .inr (Data.not_scope_of_nests hnests)⟩ ?_ hc (ih hreturn)
      rw [Bool.not_eq_true', Bool.eq_false_iff, Ne, isReturn_iff]
      rintro ⟨e, he⟩
      exact Data.ne_leave_of_nests hnests _ _ he

theorem mem_returnsBelow (h : t.Encloses outer id)
    (hreturn : t.data? id = some (.leave .returns e)) : id ∈ returnsBelow t outer := by
  obtain ⟨n, hn, hdata⟩ := Option.map_eq_some_iff.mp hreturn
  refine List.mem_filter.mpr
    ⟨Tree.mem_scopeNodes_iff.mpr (meets_of_encloses outer h hreturn), ?_⟩
  rw [hn]
  exact isReturn_iff.mpr ⟨e, hdata⟩

theorem containsReturn_of_encloses (h : t.Encloses outer id)
    (hreturn : t.data? id = some (.leave .returns e)) : containsReturn t outer = true := by
  have hscope : t.isFunction outer = false ∧ t.isClass outer = false := by
    unfold Tree.isFunction Tree.isClass
    cases h with
    | refl => rw [hreturn]; exact ⟨rfl, rfl⟩
    | step hd hnests _ _ => rw [hd]; exact Data.not_scope_of_nests hnests
  have hmem := List.ne_nil_of_mem (mem_returnsBelow h hreturn)
  rw [containsReturn, hscope.1, hscope.2, List.isEmpty_eq_false_iff.mpr hmem]
  rfl

end

/-! ### Returns that a `catch` is not passed by -/

section

variable (t : Tree) (o : Oracle)

/-- The expression is what a function that is written in place gives. -/
def IsHandlerValue (e : NodeId) : Prop :=
  ∃ function kind f, t.data? function = some (.function kind f) ∧
    (f.body = some e ∨ ∃ list, f.body.bind t.statements? = some list ∧
      ∃ statement ∈ list.nodes, t.data? statement = some (.leave .returns (some e)))

/-- The expression is one of the source `t` that gives no promise. -/
def IsPlainValue (e : NodeId) : Prop :=
  e < t.size ∧ Chain.isPromise t o (t.skipParentheses (some e)) = false

/-- The expression is no chain, and no other link either unless it is what a function in place
gives. -/
def IsUnlinked (e : NodeId) : Prop :=
  Chain.isChain t o (some e) = false ∧
    (Chain.linkOf t o (t.skipParentheses (some e)) = .other ∨ IsHandlerValue t e)

/-- If the node is a return, it awaits its value, or returns a plain one of the source `t`. A return
that was made returns no link without awaiting it. -/
def ReturnsSafely (t' : Tree) (id : NodeId) : Prop :=
  ∀ e, t'.data? id = some (.leave .returns (some e)) →
    (∃ inner, t'.data? e = some (.unary .await inner)) ∨
      IsPlainValue t o e ∧ (t.size ≤ id → IsUnlinked t o e)

/-- No return of the statement passes by a `catch`. `inTry` says that a `catch` around the
statement can see failures. Nodes that are not of the source `t` were made. -/
inductive Guarded (t' : Tree) : Bool → NodeId → Prop
  | source {inTry : Bool} {id : NodeId} (hid : id < t.size)
      (hreturns : inTry = true → ∀ x, t.Encloses id x → ReturnsSafely t o t' x) :
      Guarded t' inTry id
  | made {inTry : Bool} {id : NodeId} {d : Data} (hid : t.size ≤ id) (hd : t'.data? id = some d)
      (hnests : d.nests = false) (hreturns : inTry = true → ReturnsSafely t o t' id) :
      Guarded t' inTry id
  | guards {inTry : Bool} {id : NodeId} {tried handled : List NodeId} {text : Option String}
      (hid : t.size ≤ id) (htry : IsTry t' tried text handled id)
      (htried : ∀ x ∈ tried, Guarded t' true x) (hhandled : ∀ x ∈ handled, Guarded t' inTry x) :
      Guarded t' inTry id

end

section

variable {t t' t'' : Tree} {o : Oracle} {inTry : Bool} {id : NodeId}

theorem ReturnsSafely.evolves (h : ReturnsSafely t o t' id) (hgrow : t'.Evolves t'')
    (hid : id < t'.size) : ReturnsSafely t o t'' id := by
  intro e he
  rcases hgrow.data?_cases hid with hsame | ⟨x, x', hbefore, -⟩
  · refine (h e (hsame.symm.trans he)).imp_left fun ⟨inner, hawait⟩ => ?_
    exact ⟨inner, hgrow.data? hawait (by simp)⟩
  · obtain ⟨e', hafter, hawaits⟩ := hgrow.returns hbefore
    obtain rfl : e = e' := by simpa using he.symm.trans hafter
    cases hawaits with
    | refl =>
        refine (h e hbefore).imp_left fun ⟨inner, hawait⟩ => ?_
        exact ⟨inner, hgrow.data? hawait (by simp)⟩
    | step hawait _ => exact .inl ⟨_, hawait⟩

theorem returnsSafely_of_data? {d : Data} (hd : t'.data? id = some d)
    (hne : ∀ e, d ≠ .leave .returns (some e)) : ReturnsSafely t o t' id :=
  fun e he => absurd (Option.some.inj (hd.symm.trans he)) (hne e)

/-- A statement stays guarded while others are written and returns come to await. -/
theorem Guarded.evolves (h : Guarded t o t' inTry id) (ht : t.Closed) (hgrow : t.Evolves t')
    (hgrow' : t'.Evolves t'') : Guarded t o t'' inTry id := by
  induction h with
  | source hid hreturns =>
      refine .source hid fun hin x hx => (hreturns hin x hx).evolves hgrow' ?_
      exact Nat.lt_of_lt_of_le (hx.lt_size ht hid) hgrow.size_le
  | @made inTry id d hid hd hnests hreturns =>
      have hlt := Tree.lt_size_of_data? hd
      rcases hgrow'.data?_cases hlt with hsame | ⟨e, e', -, hafter⟩
      · exact .made hid (hsame.trans hd) hnests fun hin => (hreturns hin).evolves hgrow' hlt
      · exact .made hid hafter rfl fun hin => (hreturns hin).evolves hgrow' hlt
  | guards hid htry _ _ ih₁ ih₂ => exact .guards hid (htry.evolves hgrow') ih₁ ih₂

/-- A statement that was made and is no return. -/
theorem Guarded.of_data? {d : Data} (hid : t.size ≤ id) (hd : t'.data? id = some d)
    (hnests : d.nests = false) (hne : ∀ e, d ≠ .leave .returns (some e)) :
    Guarded t o t' inTry id :=
  .made hid hd hnests fun _ => returnsSafely_of_data? hd hne

/-! ### What it means for the returns in statements -/

theorem IsReason.isTryPart {t : Tree} {text : Option String} {binding : Option NodeId}
    (h : IsReason t text binding) {declarator : NodeId} (hbinding : binding = some declarator) :
    ∃ d, t.data? declarator = some d ∧ d.isTryPart = true ∧ d.nests = false := by
  subst hbinding
  cases text with
  | none => cases h
  | some text =>
      obtain ⟨_, hsome, target, hd, -⟩ := h
      cases hsome
      exact ⟨_, hd, rfl, rfl⟩

theorem encloses_of_block {t : Tree} {id x : NodeId} {kind : Syntax.BlockKind} {ids : List NodeId}
    {multiLine : Bool} (hd : t.data? id = some (.block kind { nodes := ids } multiLine))
    (h : t.Encloses id x) : x = id ∨ ∃ statement ∈ ids, t.Encloses statement x := by
  cases h with
  | refl => exact .inl rfl
  | step hd' _ hc h =>
      obtain rfl := Option.some.inj (hd.symm.trans hd')
      exact .inr ⟨_, hc, h⟩

/-- What stands in a `try` that was made is one of its own parts, or stands in one of the statements
that it was made of. -/
theorem IsTry.encloses {t : Tree} {id x : NodeId} {tried handled : List NodeId}
    {text : Option String} (htry : IsTry t tried text handled id) (h : t.Encloses id x) :
    x = id ∨ (∃ d, t.data? x = some d ∧ d.isTryPart = true) ∨
      ∃ statement ∈ tried ++ handled, t.Encloses statement x := by
  obtain ⟨block, clause, binding, body, hid, hblock, hclause, hbody, hreason⟩ := htry
  cases h with
  | refl => exact .inl rfl
  | step hd _ hc h =>
      obtain rfl := Option.some.inj (hid.symm.trans hd)
      simp only [Data.children, Option.toList_some, Option.toList_none, List.append_nil,
        List.cons_append, List.nil_append, List.mem_cons, List.not_mem_nil, or_false] at hc
      obtain rfl | rfl := hc
      · obtain rfl | ⟨statement, hmem, hstatement⟩ := encloses_of_block hblock h
        · exact .inr (.inl ⟨_, hblock, rfl⟩)
        · exact .inr (.inr ⟨statement, List.mem_append_left _ hmem, hstatement⟩)
      · cases h with
        | refl => exact .inr (.inl ⟨_, hclause, rfl⟩)
        | step hd _ hc h =>
            obtain rfl := Option.some.inj (hclause.symm.trans hd)
            simp only [Data.children, Option.toList_some, List.mem_append, Option.mem_toList,
              List.mem_singleton] at hc
            obtain hbinding | rfl := hc
            · obtain ⟨d, hd, hpart, hnests⟩ := hreason.isTryPart hbinding
              cases h with
              | refl => exact .inr (.inl ⟨d, hd, hpart⟩)
              | step hd' hnests' _ _ =>
                  obtain rfl := Option.some.inj (hd.symm.trans hd')
                  cases hnests.symm.trans hnests'
            · obtain rfl | ⟨statement, hmem, hstatement⟩ := encloses_of_block hbody h
              · exact .inr (.inl ⟨_, hbody, rfl⟩)
              · exact .inr (.inr ⟨statement, List.mem_append_right _ hmem, hstatement⟩)

/-- The returns in a statement that a `catch` around it can see. -/
theorem Guarded.returnsSafely (h : Guarded t o t' inTry id) (ht : t.Closed)
    (hgrow : t.Evolves t') (hin : inTry = true) {x : NodeId} (hx : t'.Encloses id x) :
    ReturnsSafely t o t' x := by
  induction h generalizing x with
  | source hid hreturns => exact hreturns hin x (hx.before ht hgrow hid)
  | made hid hd hnests hreturns =>
      cases hx with
      | refl => exact hreturns hin
      | step hd' hnests' _ _ =>
          obtain rfl := Option.some.inj (hd.symm.trans hd')
          cases hnests.symm.trans hnests'
  | guards hid htry _ _ ih₁ ih₂ =>
      intro e he
      obtain rfl | ⟨d, hd, hpart⟩ | ⟨statement, hmem, hstatement⟩ := htry.encloses hx
      · obtain ⟨block, clause, binding, body, hd, -⟩ := htry
        cases hd.symm.trans he
      · obtain rfl := Option.some.inj (he.symm.trans hd)
        cases hpart
      · obtain hmem | hmem := List.mem_append.mp hmem
        · exact ih₁ statement hmem rfl hstatement e he
        · exact ih₂ statement hmem hin hstatement e he

/-- The returns in the block of a `try` that was made. -/
theorem Guarded.returnsSafely_of_try (h : Guarded t o t' inTry id) (ht : t.Closed)
    (hgrow : t.Evolves t') {statement block x : NodeId} {clause last : Option NodeId}
    (hstatement : t'.Encloses id statement) (hmade : t.size ≤ statement)
    (hd : t'.data? statement = some (.tryStatement (some block) clause last))
    (hx : t'.Encloses block x) : ReturnsSafely t o t' x := by
  induction h with
  | source hid hreturns =>
      have hlt := (hstatement.before ht hgrow hid).lt_size ht hid
      exact absurd hmade (Nat.not_le_of_lt hlt)
  | made hid hd' hnests hreturns =>
      cases hstatement with
      | refl =>
          obtain rfl := Option.some.inj (hd.symm.trans hd')
          cases hnests
      | step hd'' hnests' _ _ =>
          obtain rfl := Option.some.inj (hd'.symm.trans hd'')
          cases hnests.symm.trans hnests'
  | guards hid htry htried _ ih₁ ih₂ =>
      obtain rfl | ⟨d, hd', hpart⟩ | ⟨part, hmem, hpart⟩ := htry.encloses hstatement
      · obtain ⟨block', clause', binding, body, hd', hblock, -⟩ := htry
        cases hd.symm.trans hd'
        obtain rfl | ⟨part, hmem, hpart⟩ := encloses_of_block hblock hx
        · exact returnsSafely_of_data? hblock (by simp)
        · exact (htried part hmem).returnsSafely ht hgrow rfl hpart
      · obtain rfl := Option.some.inj (hd.symm.trans hd')
        cases hpart
      · obtain hmem | hmem := List.mem_append.mp hmem
        · exact ih₁ part hmem hpart
        · exact ih₂ part hmem hpart

end

end Unroll

end Unchain
