import Unchain.Proofs.Chain.Outline
import Unchain.Proofs.Unroll.Awaited
import Unchain.Proofs.Unroll.Exclusion

/-!
# Statements for a chain that is returned

`return chain;` leaves the function, so the statements that take its place have to
leave it on every path (`Exits`). Not every chain becomes such statements: the body
of a handler is written in place, and if it runs off its end, so do they. `Ends` says
of a chain that its value comes from no such function. The statements for a chain of
this kind leave (`exits_unrollChain`), and so they never complete normally
(`ExitsAmong.not_executes_normal`).

A link that is marked gives its value to a later one, so its value is not returned.
No mark is wrong in this respect: while the chains of a function are unrolled, links
that are the last ones of their chains stay without a mark (`Unmarked`).
-/

namespace Unchain

open Chain (Handler Link Move moveOf?)
open Execution (Completion Executes Meaning catchParts?)
open Naming (Key)
open Promise (Oracle)
open Syntax (Data LeaveKind NodeId Tree)
open Syntax.Tree (holds_skipParentheses holds_some)

/-! ### Statements that leave -/

namespace Execution

variable {σ V : Type}

/-- After a return or a throw nothing goes on. -/
def Meaning.Leaves (m : Meaning σ V) (t : Tree) : Prop :=
  ∀ ⦃id kind e s s'⦄, t.data? id = some (.leave kind e) → ¬ m.step id s .normal s'

/-- A machine leaves at a return, and knows no throw. -/
theorem Machine.leaves (m : Machine V) : m.meaning.Leaves m.tree := by
  intro id kind e s s' hd hstep
  obtain ⟨n, hn, hdata⟩ := Option.map_eq_some_iff.mp hd
  change m.step? ⟨s.1, s.2, .normal⟩ id = some ⟨s'.1, s'.2, .normal⟩ at hstep
  rw [step?, hn, Option.bind_eq_bind, Option.bind_some, hdata] at hstep
  cases kind with
  | throws => cases hstep
  | returns =>
      cases e with
      | none => cases hstep
      | some e =>
          obtain ⟨⟨r, past⟩, -, hexit⟩ := Option.map_eq_some_iff.mp hstep
          cases r with
          | ok v => cases congrArg Moment.completion hexit
          | error x => cases congrArg Moment.completion hexit

end Execution

namespace Unroll

/-- Every path through the statement ends in a return or a throw. -/
inductive Exits (t : Tree) : NodeId → Prop
  | leave {id : NodeId} {kind : LeaveKind} {e : Option NodeId}
      (hd : t.data? id = some (.leave kind e)) : Exits t id
  | guards {id x y : NodeId} {tried handled : List NodeId} {text : Option String}
      (htry : IsTry t tried text handled id) (hx : x ∈ tried) (htried : Exits t x)
      (hy : y ∈ handled) (hhandled : Exits t y) : Exits t id

/-- One of the statements leaves. -/
def ExitsAmong (t : Tree) (ids : List NodeId) : Prop := ∃ id ∈ ids, Exits t id

section

variable {t t' : Tree} {ids ids' : List NodeId} {σ V : Type}

theorem Exits.evolves {id : NodeId} (h : Exits t id) (hgrow : t.Evolves t') : Exits t' id := by
  induction h with
  | @leave id kind e hd =>
      rcases hgrow.data?_cases (Tree.lt_size_of_data? hd) with hsame | ⟨e, e', -, hafter⟩
      · exact .leave (hsame.trans hd)
      · exact .leave hafter
  | guards htry hx _ hy _ ih₁ ih₂ => exact .guards (htry.evolves hgrow) hx ih₁ hy ih₂

namespace ExitsAmong

theorem evolves (h : ExitsAmong t ids) (hgrow : t.Evolves t') : ExitsAmong t' ids :=
  h.imp fun _ ⟨hid, hexits⟩ => ⟨hid, hexits.evolves hgrow⟩

theorem single {id : NodeId} (h : Exits t id) : ExitsAmong t [id] :=
  ⟨id, List.mem_singleton_self id, h⟩

theorem append_right (h : ExitsAmong t ids') : ExitsAmong t (ids ++ ids') :=
  h.imp fun _ => .imp_left (List.mem_append_right _)

theorem guards (h : ExitsAmong t ids) (h' : ExitsAmong t ids') {id : NodeId}
    {text : Option String} (htry : IsTry t ids text ids' id) : Exits t id := by
  obtain ⟨x, hx, htried⟩ := h
  obtain ⟨y, hy, hhandled⟩ := h'
  exact .guards htry hx htried hy hhandled

end ExitsAmong

/-- A list of statements does not complete normally if one of them never does. -/
theorem not_executes_normal_of_mem {m : Meaning σ V} {id : NodeId} (hid : id ∈ ids)
    (h : ∀ s begun s', ¬ Executes t m (.statement id) s begun .normal s') (s : σ)
    (begun : List NodeId) (s' : σ) : ¬ Executes t m (.statements ids) s begun .normal s' := by
  induction ids generalizing s begun with
  | nil => cases hid
  | cons first rest ih =>
      intro hrun
      rcases Execution.executes_cons.mp hrun with ⟨-, hne⟩ | ⟨s₁, begun₁, begun₂, hfirst, hrest, -⟩
      · exact hne rfl
      · rcases List.mem_cons.mp hid with rfl | hid
        · exact h _ _ _ hfirst
        · exact ih hid _ _ hrest

theorem Exits.not_executes_normal {id : NodeId} (h : Exits t id) {m : Meaning σ V}
    (hm : m.Leaves t) (s : σ) (begun : List NodeId) (s' : σ) :
    ¬ Executes t m (.statement id) s begun .normal s' := by
  induction h generalizing s begun s' with
  | @leave id kind e hd =>
      intro hrun
      have hparts : catchParts? t id = none := by
        rw [catchParts?, hd, Option.bind_eq_bind, Option.bind_some]
      exact hm hd ((Execution.executes_simple hparts).mp hrun).2
  | guards htry hx _ hy _ ih₁ ih₂ =>
      intro hrun
      rcases (Execution.executes_try (catchParts?_of_isTry htry (.refl t))).mp hrun with
        ⟨s₁, htried, -, -⟩ | ⟨s₁, s₂, begun₁, begun₂, x, -, hhandled, -, -⟩
      · exact not_executes_normal_of_mem hx ih₁ _ _ _ htried
      · exact not_executes_normal_of_mem hy ih₂ _ _ _ hhandled

/-- Statements do not complete normally if one of them leaves on every path. -/
theorem ExitsAmong.not_executes_normal (h : ExitsAmong t ids) {m : Meaning σ V}
    (hm : m.Leaves t) (s : σ) (begun : List NodeId) (s' : σ) :
    ¬ Executes t m (.statements ids) s begun .normal s' := by
  obtain ⟨id, hid, hexits⟩ := h
  exact not_executes_normal_of_mem hid (hexits.not_executes_normal hm) s begun s'

end

end Unroll

/-! ### Where the value of a chain comes from -/

namespace Chain

/-- Whether the value of the receiver is the value of the link. -/
def Move.handsOn : Move → Bool
  | pass | rescue _ => true
  | proceed _ | either .. => false

section

variable (t : Tree) (o : Oracle)

/-- No chain of the tree hands the value of the link on to a handler. -/
def IsLast (id : NodeId) : Prop := ∀ e < t.size, (id, true) ∉ entered t o false (spine t o (some e))

/-- The expression is the body of the function, or a return at the top of the body returns it. -/
def IsResult (function e : NodeId) : Prop :=
  ∃ body, bodyOf? t function = some body ∧ (t.statements? body = none ∧ e = body ∨
    ∃ list, t.statements? body = some list ∧
      ∃ statement ∈ list.nodes, t.data? statement = some (.leave .returns (some e)))

/-- If the body of the function consists of statements, one of them is a return or a throw. -/
def LeavesAtTop (function : NodeId) : Prop :=
  ∀ body list, bodyOf? t function = some body → t.statements? body = some list →
    ∃ statement ∈ list.nodes, ∃ kind e, t.data? statement = some (.leave kind e)

/-- The expression is the last link of its chain, and a function whose value is its value leaves at
the top of its body. Where its value is that of another chain, the same holds of that chain. -/
inductive Ends : Option NodeId → Prop
  | intro {e : Option NodeId} (hlast : ∀ x, t.skipParentheses e = some x → IsLast t o x)
      (hmember : ∀ receiver, linkOf t o (t.skipParentheses e) = .member receiver → Ends receiver)
      (hcallee : ∀ callee receiver move,
        moveOf? t o (linkOf t o (t.skipParentheses e)) = some (callee, receiver, move) →
        move.handsOn = true → Ends (some callee))
      (htop : ∀ callee receiver move function,
        moveOf? t o (linkOf t o (t.skipParentheses e)) = some (callee, receiver, move) →
        .literal function ∈ move.handlers → LeavesAtTop t function)
      (hresults : ∀ callee receiver move function r,
        moveOf? t o (linkOf t o (t.skipParentheses e)) = some (callee, receiver, move) →
        .literal function ∈ move.handlers → IsResult t function r → isChain t o (some r) = true →
        Ends (some r)) : Ends e

/-- A function that is a handler does not run off its end, nor do those that its value comes
from. -/
def HandlerEnds (handler : Handler) : Prop :=
  ∀ function, handler = .literal function → LeavesAtTop t function ∧
    ∀ r, IsResult t function r → isChain t o (some r) = true → Ends t o (some r)

end

variable {t t' : Tree} {o : Oracle} {e : Option NodeId}

theorem Ends.handler {callee receiver : NodeId} {move : Move} {handler : Handler}
    (h : Ends t o e)
    (hmove : moveOf? t o (linkOf t o (t.skipParentheses e)) = some (callee, receiver, move))
    (hhandler : handler ∈ move.handlers) : HandlerEnds t o handler := by
  obtain ⟨-, -, -, htop, hresults⟩ := h
  rintro function rfl
  exact ⟨htop _ _ _ function hmove hhandler, fun r => hresults _ _ _ function r hmove hhandler⟩

/-- What marking enters stays the same. -/
theorem entered_evolves (h : t.Evolves t') (ht : t.Closed) {spine : List (Option NodeId × Link)}
    (hspine : ∀ entry ∈ spine, ∃ id, linkOf t o id = entry.2) (consumed : Bool) :
    entered t' o consumed spine = entered t o consumed spine := by
  induction spine generalizing consumed with
  | nil => rfl
  | cons entry rest ih =>
      obtain ⟨id, link⟩ := entry
      obtain ⟨node, hlink⟩ := hspine _ List.mem_cons_self
      have ih := ih fun entry hentry => hspine entry (List.mem_cons_of_mem _ hentry)
      cases link with
      | thenCall callee receiver onFulfilled onRejected =>
          obtain ⟨-, hfulfilled, -⟩ := holds_of_thenCall ht hlink
          simp only [entered, handlerOf_evolves h ht o hfulfilled, ih]
      | catchCall callee receiver onRejected => simp only [entered, ih]
      | member receiver => simp only [entered, ih]
      | _ => rfl

end Chain

/-! ### Marks -/

namespace Unroll

/-- The tree has evolved from `t`, and no link that is the last one of its chain is marked. -/
structure Unmarked (t : Tree) (o : Oracle) (s : State) : Prop where
  evolves : t.Evolves s.tree
  has_eq_false (id : NodeId) (h : Chain.IsLast t o id) : s.successors.has id = false

/-- Marking a chain of the source marks no link that is the last one of its chain. -/
theorem has_mark_eq_false {t t' : Tree} {o : Oracle} (ht : t.Closed) (hgrow : t.Evolves t')
    {marks : Chain.Successors} {e id : NodeId} (he : e < t.size) (hid : Chain.IsLast t o id)
    (h : marks.has id = false) : (marks.mark t' o (some e) false).has id = false := by
  have hspine : Chain.entered t' o false (Chain.spine t' o (some e)) =
      Chain.entered t o false (Chain.spine t o (some e)) := by
    rw [Chain.spine, Chain.spineUpTo_evolves hgrow ht _ (holds_some.mpr he)]
    exact Chain.entered_evolves hgrow ht
      (fun entry hentry => ⟨entry.1, (Chain.link_of_mem_spineUpTo hentry).symm⟩) false
  rw [Chain.Successors.mark, Chain.Successors.has_markSpine, hspine, h, Bool.false_or,
    Bool.eq_false_iff, Ne, List.contains_iff_mem]
  exact hid e he

/-- While chains of the source are unrolled, the last link of a chain is never marked. -/
theorem Unmarked.passes {t : Tree} {o : Oracle} {s s' : State} (ht : t.Closed)
    (hs : Unmarked t o s) (h : Passes o (· < t.size) s s') : Unmarked t o s' := by
  induction h with
  | refl => exact hs
  | adds _ hadds ih =>
      refine ⟨(ih hs).evolves.trans hadds.grows.evolves, fun id hid => ?_⟩
      rw [hadds.successors]
      exact (ih hs).has_eq_false id hid
  | awaits c id _ ih =>
      refine ⟨(ih hs).evolves.trans (evolves_awaitReturn c id _), fun x hx => ?_⟩
      rw [(keeps_awaitReturn c id _).2]
      exact (ih hs).has_eq_false x hx
  | marks _ he ih =>
      exact ⟨(ih hs).evolves, fun id hid =>
        has_mark_eq_false ht (ih hs).evolves he hid ((ih hs).has_eq_false id hid)⟩
  | undoes _ hfailed ih ihfailed =>
      -- The marks of an attempt that failed stay, and so do the nodes that it made.
      exact ⟨(ih hs).evolves.trans hfailed.undoable.restores.1.evolves,
        (ihfailed (ih hs)).has_eq_false⟩

theorem Unmarked.unrollChain {t : Tree} {o : Oracle} {c : Context} {s : State} (ht : t.Closed)
    (hs : Unmarked t o s) (ho : c.oracle = o) {e : NodeId} (he : e < t.size) (sink : Sink) :
    Unmarked t o ((unrollChain c e sink).run s).2 := by
  obtain rfl := ho
  exact hs.passes ht (gives_unrollChain ht c sink hs.evolves he).passes

/-! ### Statements for a value that is returned -/

/-- The value of a chain that ends goes where the value of the whole chain goes. -/
theorem sinkOf_of_ends {t : Tree} {o : Oracle} {e : Option NodeId} {outlet : Outlet} {sink : Sink}
    {s : State} (hends : Chain.Ends t o e) (hs : Unmarked t o s) (houtlet : outlet.final = sink) :
    outlet.sinkOf t e s = sink := by
  unfold Outlet.sinkOf
  cases hskip : t.skipParentheses e with
  | none => exact houtlet
  | some x =>
      obtain ⟨hlast⟩ := hends
      rw [Option.any_some, hs.has_eq_false x (hlast x hskip)]
      exact houtlet

/-- What is unrolled is returned, and no function whose value it is runs off its end. -/
def Task.Ends (t : Tree) (o : Oracle) : Task → Prop
  | .link e outlet => outlet.final = .returned ∧ Chain.Ends t o e
  | .handler function sink => sink = .returned ∧ Chain.HandlerEnds t o function
  | .body statements sink => sink = .returned ∧
      (∃ statement ∈ statements, ∃ kind e, t.data? statement = some (.leave kind e)) ∧
      ∀ statement ∈ statements, ∀ e, t.data? statement = some (.leave .returns (some e)) →
        Chain.isChain t o (some e) = true → Chain.Ends t o (some e)
  | .value e sink => sink = .returned ∧
      (e < t.size → Chain.isChain t o (some e) = true → Chain.Ends t o (some e))

section

variable {t : Tree} {c : Context} {s s' : State} {ids : List NodeId}

theorem exits_write (c : Context) (e : Option NodeId) (isPromise : Bool) (s : State) :
    ExitsAmong ((write c e .returned isPromise).run s).2.tree
      ((write c e .returned isPromise).run s).1 := by
  obtain ⟨e', s₁, hawait, -⟩ := makes_makeAwaited (isPromise && c.inTry) e s
  obtain ⟨s₂, hmake, -, hnode⟩ := run_make (.leave .returns e') {} s₁
  have hrun : (write c e .returned isPromise).run s = ([s₁.tree.size], s₂) :=
    (run_bind hawait).trans (run_bind hmake)
  rw [hrun]
  exact .single (.leave hnode.data?)

theorem exits_of_run_write {e : Option NodeId} {sink : Sink} {isPromise : Bool}
    (hsink : sink = .returned) (h : (write c e sink isPromise).run s = (ids, s')) :
    ExitsAmong s'.tree ids := by
  subst hsink
  have hexits := exits_write c e isPromise s
  rwa [h] at hexits

/-- A `try` leaves if both of its parts do. -/
theorem exits_of_run_makeTry {hoisted tried handled : List NodeId} {reason : Key} {id : NodeId}
    (htried : ExitsAmong s.tree tried) (hhandled : ExitsAmong s.tree handled)
    (h : (makeTry tried handled reason).run s = (id, s')) :
    ExitsAmong s'.tree (hoisted ++ [id]) := by
  obtain ⟨id', s₁, hrun, hadds, -, htry, -⟩ := run_makeTry tried handled reason s
  cases hrun.symm.trans h
  have hgrow := hadds.grows.evolves
  exact .append_right (.single ((htried.evolves hgrow).guards (hhandled.evolves hgrow) htry))

/-- If the first statement of a body does not leave, one of the others does. -/
theorem Task.Ends.rest {o : Oracle} {statement : NodeId} {rest : List NodeId} {sink : Sink}
    (h : (Task.body (statement :: rest) sink).Ends t o)
    (hno : ∀ kind e, t.data? statement ≠ some (.leave kind e)) :
    (Task.body rest sink).Ends t o := by
  obtain ⟨hsink, ⟨x, hx, kind, e, hd⟩, hvalues⟩ := h
  refine ⟨hsink, ?_, fun x hx => hvalues x (List.mem_cons_of_mem _ hx)⟩
  rcases List.mem_cons.mp hx with rfl | hx
  · exact absurd hd (hno kind e)
  · exact ⟨x, hx, kind, e, hd⟩

/-- Statements for a `then` or `catch` leave by those for its last handlers, or by those for its
receiver where its value is handed on. -/
theorem Gives.exits {task : Task} (ht : t.Closed) (h : Gives t c task s ids s')
    (hs : Unmarked t c.oracle s) (hends : task.Ends t c.oracle) : ExitsAmong s'.tree ids := by
  induction h with
  | written _ hpasses _ _ hrun =>
      exact exits_of_run_write (sinkOf_of_ends hends.2 (hs.passes ht hpasses) hends.1) hrun
  | member hlink _ ih =>
      obtain ⟨houtlet, -, hmember, -⟩ := hends
      exact ih hs ⟨houtlet, hmember _ hlink⟩
  | pass hmove _ ih =>
      obtain ⟨houtlet, -, -, hcallee, -⟩ := hends
      exact ih hs ⟨houtlet, hcallee _ _ _ hmove rfl⟩
  | rescue hmove hhoist htried hhandled hmake ihtried ihhandled =>
      have hsink := sinkOf_of_ends hends.2 hs hends.1
      have hhandler := hends.2.handler hmove (List.mem_singleton_self _)
      obtain ⟨houtlet, -, -, hcallee, -⟩ := hends
      have hs₁ := hs.passes ht (passes_of_run_hoist _ _ hhoist)
      have hs₂ := hs₁.passes ht htried.passes
      have hexits := ihtried hs₁ ⟨houtlet, hcallee _ _ _ hmove rfl⟩
      exact exits_of_run_makeTry (hexits.evolves hhandled.evolves) (ihhandled hs₂ ⟨hsink, hhandler⟩)
        hmake
  | proceed hmove hbefore _ _ ihafter =>
      have hsink := sinkOf_of_ends hends.2 hs hends.1
      have hhandler := hends.2.handler hmove (List.mem_singleton_self _)
      exact .append_right (ihafter (hs.passes ht hbefore.passes) ⟨hsink, hhandler⟩)
  | either hmove hhoist hbefore hafter hhandled hmake _ ihafter ihhandled =>
      have hsink := sinkOf_of_ends hends.2 hs hends.1
      have hhandler := hends.2.handler hmove List.mem_cons_self
      have hrejected := hends.2.handler hmove (List.mem_cons_of_mem _ (List.mem_singleton_self _))
      have hs₁ := hs.passes ht (passes_of_run_hoist _ _ hhoist)
      have hs₂ := hs₁.passes ht hbefore.passes
      have hs₃ := hs₂.passes ht hafter.passes
      have hexits := ihafter hs₂ ⟨hsink, hhandler⟩
      exact exits_of_run_makeTry (.append_right (hexits.evolves hhandled.evolves))
        (ihhandled hs₃ ⟨hsink, hrejected⟩) hmake
  | call _ _ hrun => exact exits_of_run_write hends.1 hrun
  | block hbody hlist _ ih =>
      obtain ⟨hsink, hends⟩ := hends
      obtain ⟨htop, hresults⟩ := hends _ rfl
      refine ih hs ⟨hsink, htop _ _ hbody hlist, fun statement hmem r hr => ?_⟩
      exact hresults r ⟨_, hbody, .inr ⟨_, hlist, statement, hmem, hr⟩⟩
  | concise hbody hnone _ ih =>
      obtain ⟨hsink, hends⟩ := hends
      exact ih hs ⟨hsink, fun _ => (hends _ rfl).2 _ ⟨_, hbody, .inl ⟨hnone, rfl⟩⟩⟩
  | bodiless _ hrun => exact exits_of_run_write hends.1 hrun
  | done =>
      obtain ⟨-, ⟨statement, hmem, -⟩, -⟩ := hends
      cases hmem
  | returns hstatement hreturn _ ih =>
      obtain ⟨hsink, -, hvalues⟩ := hends
      refine ih hs ⟨hsink, fun he hchain => hvalues _ List.mem_cons_self _ ?_ hchain⟩
      refine (returned_value hs.evolves hstatement hreturn).resolve_right fun ⟨inner, hawait⟩ => ?_
      -- What comes to be awaited is no chain.
      rw [← Chain.isChain_evolves hs.evolves ht _ (holds_some.mpr he),
        Chain.isChain_await _ hawait] at hchain
      cases hchain
  | leaves _ hrun =>
      obtain ⟨s₁, hreturn, -, hnode⟩ := run_make (.leave .returns none) {} _
      cases hreturn.symm.trans hrun
      exact .single (.leave hnode.data?)
  | ends _ hsink _ => exact absurd hends.1 hsink
  | chain hd _ hfirst _ _ ihrest =>
      exact .append_right (ihrest (hs.passes ht hfirst.passes) (hends.rest (by simp [hd])))
  | @keep c sink statement rest others s s₁ s' hstatement _ hkeep hrest ihrest =>
      have hpasses := passes_of_run_keepStatement c.oracle (· < t.size) hkeep
      -- A statement that leaves is kept; if this one does not, one of the rest does.
      by_cases hleave : ∃ kind e, t.data? statement = some (.leave kind e)
      · obtain ⟨kind, e, hd⟩ := hleave
        have hafter := (hs.passes ht (hpasses.trans hrest.passes)).evolves
        exact ⟨statement, List.mem_cons_self, .evolves (.leave hd) hafter⟩
      · obtain ⟨x, hx, hexits⟩ := ihrest (hs.passes ht hpasses)
          (hends.rest fun kind e hd => hleave ⟨kind, e, hd⟩)
        exact ⟨x, List.mem_cons_of_mem _ hx, hexits⟩
  | nested he hchain _ ih =>
      exact ih (hs.passes ht (.marks (.refl _) he)) ⟨hends.1, hends.2 he hchain⟩
  | plain _ _ hrun => exact exits_of_run_write hends.1 hrun

theorem exits_unrollChain {o : Oracle} (ht : t.Closed) (ho : c.oracle = o) {e : NodeId}
    (he : e < t.size) (hends : Chain.Ends t o (some e)) (hs : Unmarked t o s) :
    ExitsAmong ((unrollChain c e .returned).run s).2.tree
      ((unrollChain c e .returned).run s).1.statements := by
  obtain rfl := ho
  exact (gives_unrollChain ht c .returned hs.evolves he).exits ht hs ⟨rfl, hends⟩

end

end Unroll

end Unchain
