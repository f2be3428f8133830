import Unchain.Proofs.Chain.Layers

/-!
# Links along a spine

What a link of any kind does (`Move`), and which of the links of a chain are
entered as having their value consumed (`entered`). `has_markSpine` says that
this is what marking the chain does to the successors, and `spineUpTo_evolves`
that the links stay what they are while statements are written.
-/

namespace Unchain.Chain

open Promise (Oracle)
open Syntax (Data NodeId Tree)
open Syntax.Tree (Evolves holds_skipParentheses holds_some)

/-- What a link does with what its receiver settles to. -/
inductive Move where
  /-- Hand it on. -/
  | pass
  /-- Handle a reason, hand on a value. -/
  | rescue (handler : Handler)
  /-- Handle a value, hand on a reason. -/
  | proceed (handler : Handler)
  /-- Handle both. -/
  | either (handler onRejected : Handler)

section

variable (t : Tree) (o : Oracle)

/-- The callee and the receiver of a `then` or `catch`, and what the link does. -/
def moveOf? : Link → Option (NodeId × NodeId × Move)
  | .thenCall callee receiver onFulfilled onRejected =>
    some (callee, receiver,
      match handlerOf t o onFulfilled, handlerOf t o onRejected with
      | .absent, .absent => .pass
      | .absent, handler => .rescue handler
      | handler, .absent => .proceed handler
      | handler, onRejected => .either handler onRejected)
  | .catchCall callee receiver onRejected =>
    some (callee, receiver, .rescue (handlerOf t o (some onRejected)))
  | .finallyCall _ | .promise | .member _ | .other => none

/-- The links that marking a spine enters, and whether it enters them as consumed. -/
def entered : Bool → List (Option NodeId × Link) → List (NodeId × Bool)
  | _, [] => []
  | consumed, (id, link) :: rest =>
    let own := id.toList.map fun id => (id, consumed)
    match link with
    | .thenCall _ _ onFulfilled _ =>
      own ++ entered (consumed || !(handlerOf t o onFulfilled).isAbsent) rest
    | .catchCall .. => own ++ entered consumed rest
    | .member _ => entered consumed rest
    | .finallyCall _ | .promise => own
    | .other => []

end

variable {t : Tree} {o : Oracle}

/-! ### What a link is made of -/

/-- A link that a call is by the name of its method is a link on the receiver of the method. -/
theorem eq_of_receiver?_linkOfMethod {callee receiver : NodeId} {method : String}
    {arguments : List NodeId} {part : Option NodeId}
    (h : (linkOfMethod t callee receiver method arguments).receiver? = some part) :
    part = some receiver := by
  unfold linkOfMethod at h
  simp only [] at h
  split at h
  · cases h
  · split at h <;> cases h <;> rfl

theorem isPromise_of_methodLink? {outer : Option NodeId} {arguments : List NodeId} {link : Link}
    (h : methodLink? t o outer arguments = some link) {receiver : NodeId}
    (hreceiver : link.receiver? = some (some receiver)) : isPromise t o (some receiver) = true := by
  obtain ⟨callee, inner, name, method, -, -, -, -, hpromise, rfl⟩ := methodLink?_eq_some_iff.mp h
  obtain rfl := Option.some.inj (eq_of_receiver?_linkOfMethod hreceiver)
  exact hpromise

theorem receiver?_plain (e : Option NodeId) :
    (if isPromise t o e = true then Link.promise else .other).receiver? = none := by
  split <;> rfl

/-- The receiver of a link is a promise, and an access that is none has any receiver. -/
theorem linkOf_receiver? {id : NodeId} {part : Option NodeId}
    (h : (linkOf t o (some id)).receiver? = some part) :
    (linkOf t o (some id) = .member part ∧
        ∃ name q, t.data? id = some (.access .property part name q)) ∨
      ∃ receiver, part = some receiver ∧ isPromise t o (some receiver) = true ∧
        ∃ callee arguments, CallsMethod t id callee receiver arguments := by
  unfold linkOf at h ⊢
  rw [Tree.partData?, Option.bind_some] at h ⊢
  cases hdata : t.data? id with
  | none => rw [hdata] at h; cases (receiver?_plain (some id)).symm.trans h
  | some data =>
      rw [hdata] at h
      cases data with
      | call kind outer types list =>
          cases kind with
          | new => cases (receiver?_plain (some id)).symm.trans h
          | call =>
              cases hm : methodLink? t o outer (Data.listNodes list) with
              | none =>
                  simp only [hm, Option.getD_none] at h
                  cases (receiver?_plain (some id)).symm.trans h
              | some link =>
                  simp only [hm, Option.getD_some] at h ⊢
                  obtain ⟨callee, receiver, method, hcalls, rfl⟩ :=
                    callsMethod_of_methodLink? hdata hm
                  obtain rfl := eq_of_receiver?_linkOfMethod h
                  exact .inr ⟨receiver, rfl, isPromise_of_methodLink? hm h, callee, _, hcalls⟩
      | access kind inner name question =>
          cases kind with
          | element => cases (receiver?_plain (some id)).symm.trans h
          | property =>
              simp only [] at h ⊢
              split at h
              · cases h
              · next hno =>
                obtain rfl := Option.some.inj h
                rw [if_neg hno]
                exact .inl ⟨rfl, name, question, rfl⟩
      | _ => cases (receiver?_plain (some id)).symm.trans h

/-- An expression that is no link and no access gives no promise. -/
theorem isPromise_of_other {e : Option NodeId} (h : linkOf t o e = .other) :
    isPromise t o e = false := by
  have hplain : (if isPromise t o e = true then Link.promise else .other) = .other →
      isPromise t o e = false := fun h => by
    split at h
    · cases h
    · next hno => exact Bool.eq_false_iff.mpr hno
  unfold linkOf at h
  simp only [] at h
  split at h
  · next callee types arguments _ =>
    cases hm : methodLink? t o callee (Data.listNodes arguments) with
    | none => exact hplain (by rwa [hm, Option.getD_none] at h)
    | some link =>
        rw [hm, Option.getD_some] at h
        subst h
        obtain ⟨callee, receiver, name, method, -, -, -, -, -, hlink⟩ :=
          methodLink?_eq_some_iff.mp hm
        unfold linkOfMethod at hlink
        simp only [] at hlink
        split at hlink
        · cases hlink
        · split at hlink <;> cases hlink
  · split at h <;> cases h
  · exact hplain h

/-- What a chain goes on through is a node of a closed tree. -/
theorem holds_receiver (ht : t.Closed) {id : NodeId} {part : Option NodeId}
    (h : (linkOf t o (some id)).receiver? = some part) : t.Holds part := by
  rcases linkOf_receiver? h with ⟨-, name, q, hd⟩ | ⟨receiver, rfl, -, callee, arguments, hcalls⟩
  · exact fun x hx => ht.child_lt hd (by simp [Data.children, hx])
  · exact holds_some.mpr (hcalls.receiver_lt_size ht)

theorem holds_of_thenCall (ht : t.Closed) {e onFulfilled onRejected : Option NodeId}
    {callee receiver : NodeId}
    (h : linkOf t o e = .thenCall callee receiver onFulfilled onRejected) :
    callee < t.size ∧ t.Holds onFulfilled ∧ t.Holds onRejected := by
  cases e with
  | none => cases h
  | some id =>
      obtain ⟨arguments, hcalls, hfulfilled, hrejected⟩ := callsMethod_of_thenCall h
      exact ⟨hcalls.callee_lt_size, fun x hx => hcalls.argument_lt_size ht (hfulfilled x hx),
        fun x hx => hcalls.argument_lt_size ht (hrejected x hx)⟩

theorem holds_of_catchCall (ht : t.Closed) {e : Option NodeId}
    {callee receiver onRejected : NodeId}
    (h : linkOf t o e = .catchCall callee receiver onRejected) :
    callee < t.size ∧ t.Holds (some onRejected) := by
  cases e with
  | none => cases h
  | some id =>
      obtain ⟨arguments, hcalls, hrejected⟩ := callsMethod_of_catchCall h
      exact ⟨hcalls.callee_lt_size, holds_some.mpr (hcalls.argument_lt_size ht hrejected)⟩

theorem holds_of_member (ht : t.Closed) {e receiver : Option NodeId}
    (h : linkOf t o e = .member receiver) : t.Holds receiver := by
  cases e with
  | none => cases h
  | some id => exact holds_receiver ht (by rw [h]; rfl)

/-- A chain is no `await`. -/
theorem isChain_await {e : NodeId} {inner : Option NodeId} (o : Oracle)
    (h : t.data? e = some (.unary .await inner)) : isChain t o (some e) = false := by
  rw [isChain, Tree.skipParentheses_of_ne (by simp [h]), Bool.eq_false_iff]
  intro hconvertible
  obtain ⟨callee, receiver, method, arguments, hcalls, -⟩ :=
    callsMethod_of_isConvertible hconvertible
  obtain ⟨outer, types, list, name, hcall, -⟩ := hcalls
  cases h.symm.trans hcall

/-! ### Handlers -/

theorem bodyOf?_eq_some_iff {function body : NodeId} : bodyOf? t function = some body ↔
    ∃ k f, t.data? function = some (.function k f) ∧ f.body = some body := by
  unfold bodyOf?
  constructor
  · intro h
    split at h
    · next k f hdata => exact ⟨k, f, hdata, h⟩
    · cases h
  · rintro ⟨k, f, hdata, hbody⟩
    rw [hdata]
    exact hbody

theorem mem_children_of_bodyOf? {function body : NodeId} (h : bodyOf? t function = some body) :
    body ∈ t.children function := by
  obtain ⟨k, f, hdata, hbody⟩ := bodyOf?_eq_some_iff.mp h
  simp [Tree.children, hdata, Data.children, hbody]

/-- The expression that stands for a handler is its argument without parentheses. -/
theorem skip_of_handlerOf {e : Option NodeId} {id : NodeId}
    (h : (handlerOf t o e).node? = some id) : t.skipParentheses e = some id := by
  unfold handlerOf at h
  split at h
  · cases h
  · next id' hid =>
    rw [hid]
    split at h
    · cases h
    · cases h
    · split at h <;> exact h
    · split at h <;> exact h
    · split at h
      · cases h
      · exact h
    · exact h

/-- A handler that is written in place is a function expression. -/
theorem function_of_literal {e : Option NodeId} {function : NodeId}
    (h : handlerOf t o e = .literal function) :
    ∃ k f, t.data? function = some (.function k f) ∧ (k = .arrow ∨ k = .expression) := by
  unfold handlerOf at h
  split at h
  · cases h
  · next id hid =>
    split at h
    · cases h
    · cases h
    · next f hdata =>
      split at h <;> cases h
      exact ⟨.arrow, f, hdata, .inl rfl⟩
    · next f hdata =>
      split at h <;> cases h
      exact ⟨.expression, f, hdata, .inr rfl⟩
    · split at h <;> cases h
    · cases h

/-! ### What marking enters -/

namespace Successors

theorem has_raise_self (s : Successors) (link : NodeId) (value : Bool) :
    (s.raise link value).has link = (s.has link || value) := by
  rw [has, get?_raise, if_pos rfl, Option.getD_some]

theorem has_raise_of_ne (s : Successors) {link other : NodeId} (value : Bool)
    (h : other ≠ link) : (s.raise link value).has other = s.has other := by
  rw [has, get?_raise, if_neg h, has]

theorem has_raise (s : Successors) (link other : NodeId) (value : Bool) :
    (s.raise link value).has other = (s.has other || (decide (other = link) && value)) := by
  by_cases h : other = link
  · subst h
    simp [has_raise_self]
  · simp [has_raise_of_ne s value h, h]

/-- Marking a spine raises the entries of its consumed links. -/
theorem has_markSpine (s : Successors) (consumed : Bool) (spine : List (Option NodeId × Link))
    (id : NodeId) :
    (s.markSpine t o consumed spine).has id =
      (s.has id || (entered t o consumed spine).contains (id, true)) := by
  induction spine generalizing consumed s with
  | nil => simp [markSpine, entered]
  | cons entry rest ih =>
      obtain ⟨node, link⟩ := entry
      have hown : ((node.map fun node => s.raise node consumed).getD s).has id =
          (s.has id || (node.toList.map fun node => (node, consumed)).contains (id, true)) := by
        cases node with
        | none => simp
        | some node => cases consumed <;> simp [has_raise]
      unfold markSpine entered
      cases link with
      | other => simp
      | member => simp only [ih]
      | promise => exact hown
      | finallyCall => exact hown
      | thenCall => simp only [ih, hown, List.contains_append, Bool.or_assoc]
      | catchCall => simp only [ih, hown, List.contains_append, Bool.or_assoc]

end Successors

/-! ### After the tree has evolved -/

/-- The links of a chain stay what they are. -/
theorem spineUpTo_evolves {t' : Tree} (h : Evolves t t') (ht : t.Closed) (limit : Nat)
    {e : Option NodeId} (he : t.Holds e) : spineUpTo t' o limit e = spineUpTo t o limit e := by
  induction limit generalizing e with
  | zero => rfl
  | succ limit ih =>
      have hskip := holds_skipParentheses ht he
      simp only [spineUpTo, h.skipParentheses ht he, linkOf_evolves h ht o hskip]
      cases hs : t.skipParentheses e with
      | none => rfl
      | some id =>
          cases hreceiver : (linkOf t o (some id)).receiver? with
          | none => rfl
          | some part =>
              rw [Option.map_some, Option.map_some, ih (holds_receiver ht hreceiver)]

end Unchain.Chain
