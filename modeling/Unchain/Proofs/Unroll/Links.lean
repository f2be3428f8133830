import Unchain.Proofs.Chain.Spine
import Unchain.Proofs.Unroll.Steps

/-!
# One link

What `unroll` does with the outermost link of an expression, by what the link
is: it goes on through an access, unrolls a `then` or `catch` by its move, and
keeps what cannot be unrolled.
-/

namespace Unchain.Unroll

open Chain (CallsMethod Move moveOf?)
open Syntax (NodeId Tree)
open Syntax.Tree (Evolves holds_some)

section

variable {c : Context} {e : Option NodeId} {outlet : Outlet} {s s' : State} {id : NodeId}
  {unrollInner : Unroller}

theorem run_keepLink (hskip : s.tree.skipParentheses e = some id) :
    (keepLink c e outlet).run s =
      (write c (some id) (outlet.sink (s.successors.has id)) true).run s := by
  refine (run_get_bind _ s).trans ?_
  rw [hskip]
  rfl

theorem run_unroll_of_some {depth : Nat} {ids : List NodeId}
    (h : (unrollLink (unroll depth) c e outlet).run.run s = (some ids, s')) :
    (unroll (depth + 1) c e outlet).run s = (ids, s') :=
  (run_bind (attempt_run_of_some h)).trans rfl

/-- A link that cannot be converted is kept, with the names as they were and patches taken back. -/
theorem run_unroll_of_none {depth : Nat}
    (h : (unrollLink (unroll depth) c e outlet).run.run s = (none, s')) :
    (unroll (depth + 1) c e outlet).run s =
      (keepLink c e outlet).run
        { s'.unpatch s.patched.length with register := s.register } :=
  run_bind (attempt_run_of_none h)

theorem run_unrollLink_promise (hskip : s.tree.skipParentheses e = some id)
    (hlink : Chain.linkOf s.tree c.oracle (some id) = .promise) :
    (unrollLink unrollInner c e outlet).run.run s =
      (liftM (write c (some id) (outlet.sink (s.successors.has id)) true) :
        Attempt (List NodeId)).run.run s := by
  refine (attempt_get_bind _ s).trans ?_
  refine (attempt_bind (attempt_lift (run_get_bind _ s))).trans ?_
  simp only [hskip, hlink]
  rfl

theorem run_unrollLink_member {receiver : Option NodeId}
    (hskip : s.tree.skipParentheses e = some id)
    (hlink : Chain.linkOf s.tree c.oracle (some id) = .member receiver) :
    (unrollLink unrollInner c e outlet).run.run s =
      (liftM (unrollInner c receiver outlet) : Attempt (List NodeId)).run.run s := by
  refine (attempt_get_bind _ s).trans ?_
  refine (attempt_bind (attempt_lift (run_get_bind _ s))).trans ?_
  simp only [hskip, hlink]

/-- What a link asks for. -/
def unrollMove (unroll : Unroller) (c : Context) (callee : NodeId) (outlet : Outlet)
    (sink : Sink) : Move → Attempt (List NodeId)
  | .pass => unroll c (some callee) outlet
  | .rescue handler => unrollCatch unroll c callee handler outlet sink
  | .proceed handler => unrollThen unroll c callee handler outlet sink
  | .either handler onRejected => unrollBoth unroll c callee handler onRejected outlet sink

/-- A `then` or `catch` is unrolled by its move. -/
theorem run_unrollLink_move {callee receiver : NodeId} {move : Move}
    (hskip : s.tree.skipParentheses e = some id)
    (hmove : moveOf? s.tree c.oracle (Chain.linkOf s.tree c.oracle (some id)) =
      some (callee, receiver, move)) :
    (unrollLink unrollInner c e outlet).run.run s =
      (unrollMove unrollInner c callee outlet (outlet.sink (s.successors.has id)) move).run.run
        s := by
  refine (attempt_get_bind _ s).trans ?_
  refine (attempt_bind (attempt_lift (run_get_bind _ s))).trans ?_
  cases hlink : Chain.linkOf s.tree c.oracle (some id) with
  | thenCall _ _ onFulfilled onRejected =>
      rw [hlink] at hmove
      simp only [moveOf?, Option.some.injEq, Prod.mk.injEq] at hmove
      obtain ⟨rfl, -, rfl⟩ := hmove
      simp only [hskip, hlink]
      cases Chain.handlerOf s.tree c.oracle onFulfilled <;>
        cases Chain.handlerOf s.tree c.oracle onRejected <;> rfl
  | catchCall _ _ onRejected =>
      rw [hlink] at hmove
      cases hmove
      simp only [hskip, hlink]
      rfl
  | _ =>
      rw [hlink] at hmove
      cases hmove

/-- The access between a link and its receiver leads to the receiver. -/
theorem run_unroll_callee {t : Tree} {callee receiver : NodeId} {arguments : List NodeId}
    (ht : t.Closed) (hgrow : Evolves t s.tree) (hcalls : CallsMethod t id callee receiver arguments)
    (hmethod : Chain.isPromise t c.oracle (some callee) = false) (depth : Nat) :
    (unroll (depth + 1) c (some callee) outlet).run s =
      (unroll depth c (some receiver) outlet).run s := by
  have hcallee : t.Holds (some callee) := holds_some.mpr hcalls.callee_lt_size
  have hskip : s.tree.skipParentheses (some callee) = some callee := by
    rw [hgrow.skipParentheses ht hcallee, hcalls.skip]
  have hlink : Chain.linkOf s.tree c.oracle (some callee) = .member (some receiver) := by
    rw [Chain.linkOf_evolves hgrow ht _ hcallee, hcalls.linkOf_callee hmethod]
  exact run_unroll_of_some ((run_unrollLink_member hskip hlink).trans (attempt_lift rfl))

end

end Unchain.Unroll
