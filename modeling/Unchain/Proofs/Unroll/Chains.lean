import Unchain.Proofs.Unroll.Links
import Unchain.Proofs.Unroll.Settles

/-!
# Unrolling a chain

`unrolls_unroll` is the induction over the layers of a chain: what `unroll` writes
for a chain of any length settles it. A link whose function is an async arrow is
kept as written with all that it is called on; the chain around it is unrolled.
-/

namespace Unchain.Unroll

open Binding (Table)
open Chain (Callback CallsMethod Chained Form HasForm Handler IsCallback Layer Link Marked
  keysOf keysOf_cons)
open Naming (Key Register)
open Promise (Oracle)
open Syntax (NodeId Tree)
open Syntax.Tree (holds_some)

variable {V : Type}

/-! ### One link -/

section

variable {c : Context} {e : Option NodeId} {outlet : Outlet} {s s' : State} {id : NodeId}
  {unrollInner : Unroller}

theorem run_unrollLink_pass {link : Link} {callee receiver : NodeId}
    (hskip : s.tree.skipParentheses e = some id)
    (hlink : Chain.linkOf s.tree c.oracle (some id) = link)
    (hform : HasForm s.tree c.oracle c.bindings link callee receiver .pass) :
    (unrollLink unrollInner c e outlet).run.run s =
      (liftM (unrollInner c (some callee) outlet) : Attempt (List NodeId)).run.run s := by
  cases hform with
  | pass fulfilled rejected =>
      refine (attempt_get_bind _ s).trans ?_
      refine (attempt_bind (attempt_lift (run_get_bind _ s))).trans ?_
      simp only [hskip, hlink, fulfilled, rejected]

theorem run_unrollLink_value {link : Link} {callee receiver : NodeId} {callback : Callback}
    (hskip : s.tree.skipParentheses e = some id)
    (hlink : Chain.linkOf s.tree c.oracle (some id) = link)
    (hform : HasForm s.tree c.oracle c.bindings link callee receiver (.value callback)) :
    (unrollLink unrollInner c e outlet).run.run s =
      (unrollThen unrollInner c callee (Chain.handlerOf s.tree c.oracle link.handlers.1) outlet
        (outlet.sink (s.successors.has id))).run.run s := by
  cases hform with
  | @value _ _ onFulfilled onRejected _ fulfilled rejected =>
      refine (attempt_get_bind _ s).trans ?_
      refine (attempt_bind (attempt_lift (run_get_bind _ s))).trans ?_
      simp only [hskip, hlink, rejected, Link.handlers]
      cases hh : Chain.handlerOf s.tree c.oracle onFulfilled with
      | absent => exact absurd hh fulfilled.ne_absent
      | _ => rfl

theorem run_unrollLink_reason {link : Link} {callee receiver : NodeId} {callback : Callback}
    (hskip : s.tree.skipParentheses e = some id)
    (hlink : Chain.linkOf s.tree c.oracle (some id) = link)
    (hform : HasForm s.tree c.oracle c.bindings link callee receiver (.reason callback)) :
    (unrollLink unrollInner c e outlet).run.run s =
      (unrollCatch unrollInner c callee (Chain.handlerOf s.tree c.oracle link.handlers.2) outlet
        (outlet.sink (s.successors.has id))).run.run s := by
  cases hform with
  | @reason _ _ onFulfilled onRejected _ fulfilled rejected =>
      refine (attempt_get_bind _ s).trans ?_
      refine (attempt_bind (attempt_lift (run_get_bind _ s))).trans ?_
      simp only [hskip, hlink, fulfilled, Link.handlers]
      cases hh : Chain.handlerOf s.tree c.oracle onRejected with
      | absent => exact absurd hh rejected.ne_absent
      | _ => rfl
  | catches rejected =>
      refine (attempt_get_bind _ s).trans ?_
      refine (attempt_bind (attempt_lift (run_get_bind _ s))).trans ?_
      simp only [hskip, hlink, Link.handlers]
      rfl

/-- The handler is unrolled after the receiver. -/
theorem run_unrollThen {callee : NodeId} {handler : Handler} {sink : Sink} {argument : Option Key}
    {before : List NodeId} {s₁ : State}
    (hargument : Naming.valueKey? s.tree c.bindings handler = some argument)
    (hbefore : (unrollInner c (some callee) { outlet with argument }).run s = (before, s₁)) :
    (unrollThen unrollInner c callee handler outlet sink).run.run s =
      (do return before ++ (← unrollHandler unrollInner c handler argument sink) :
        Attempt (List NodeId)).run.run s₁ := by
  refine (attempt_get_bind _ s).trans ?_
  rw [hargument]
  exact (attempt_bind (attempt_orFail _ s)).trans (attempt_bind (attempt_lift hbefore))

/-- The handler is unrolled after the receiver, and a `try` is put around what both have become. -/
theorem run_unrollCatch {callee : NodeId} {handler : Handler} {sink : Sink} {reason : Key}
    {hoisted tried : List NodeId} {s₁ s₂ : State}
    (hreason : Naming.reasonKey? s.tree c.bindings handler = some reason)
    (hhoist : (hoist sink).run s = (hoisted, s₁))
    (htried : (unrollInner { c with inTry := true } (some callee) outlet).run s₁ = (tried, s₂)) :
    (unrollCatch unrollInner c callee handler outlet sink).run.run s =
      (do
        let handled ← unrollHandler unrollInner c handler (some reason) sink
        return hoisted ++ [← makeTry tried handled reason] :
        Attempt (List NodeId)).run.run s₂ := by
  refine (attempt_get_bind _ s).trans ?_
  rw [hreason]
  refine (attempt_bind (attempt_orFail _ s)).trans ?_
  exact (attempt_bind (attempt_lift hhoist)).trans (attempt_bind (attempt_lift htried))

end

/-- What is declared ahead, tried and handled, and a `try` around it that declares the reason. -/
theorem Effect.guards {sink : Sink} {keys : List Key} {reason : Key} {s s₁ s₂ s₃ s' : State}
    (hhoisted : Effect sink [] s s₁) (htried : Effect sink keys s₁ s₂)
    (hhandled : Effect sink [] s₂ s₃) (hadds : Adds s₃ s')
    (hregister : s'.register = s₃.register.declare reason) (hreason : reason ∉ sink.keys) :
    Effect sink (reason :: keys) s s' := by
  have hbefore : Effect sink keys s s₂ := by
    refine hhoisted.trans htried ?_ (List.Subset.refl _)
    exact List.append_subset.mpr ⟨List.subset_append_left _ _, List.nil_subset _⟩
  have hafter : Effect sink (reason :: keys) s s₃ := by
    refine hbefore.trans hhandled ?_ (List.nil_subset _)
    exact List.append_subset.mpr ⟨List.subset_append_left _ _,
      fun key hkey => List.mem_append_right _ (List.mem_cons_of_mem _ hkey)⟩
  exact hafter.declare hadds hregister List.mem_cons_self hreason

/-! ### All links -/

section

variable {t : Tree} {o : Oracle} {b : Table} {name : Key → String} {leaf : NodeId}

/-- What `unroll` writes for a chain settles it. -/
def Unrolls (V : Type) (t : Tree) (o : Oracle) (name : Key → String) (leaf : NodeId)
    (layers : List Layer) (c : Context) (sink : Sink) (s : State)
    (result : List NodeId × State) : Prop :=
  Effect sink (keysOf layers) s result.2 ∧
    Realizes V t o c.inTry name leaf layers sink s.register result.2.tree result.1

/-- Nodes that are made before do not matter. -/
theorem Unrolls.of_makes {layers : List Layer} {c : Context} {sink : Sink} {s s₁ : State}
    {result : List NodeId × State} (h : Unrolls V t o name leaf layers c sink s₁ result)
    (hmakes : Makes s s₁) : Unrolls V t o name leaf layers c sink s result :=
  ⟨hmakes.effect_trans h.1, by rw [← hmakes.register]; exact h.2⟩

theorem unrolls_write (ht : t.Closed) {e id : NodeId} {layers : List Layer}
    (h : Chained t o b e leaf layers)
    (hskip : t.skipParentheses (some e) = some id) (hkept : unrolledPart layers = [])
    {c : Context} {sink : Sink} {s : State} (hgrow : t.Grows s.tree)
    (hplanned : Planned s.register name sink layers) :
    Unrolls V t o name leaf layers c sink s ((write c (some id) sink true).run s) := by
  obtain ⟨ids, s', hrun, heffect, hrealizes⟩ :=
    realizes_write (V := V) ht h hskip hkept c sink s hgrow
      fun key hkey => hplanned.name? key (List.mem_append_left _ hkey)
  rw [hrun]
  exact ⟨heffect, hrealizes⟩

/-- A link settles its chain if it is unrolled so, or if it is kept. -/
theorem unrolls_of_unrollLink (ht : t.Closed) {e id : NodeId} {layers : List Layer}
    (h : Chained t o b e leaf layers) (hskip : t.skipParentheses (some e) = some id)
    (he : e < t.size) {c : Context} {outlet : Outlet} {consumed : Bool} {s : State} {depth : Nat}
    (hgrow : t.Grows s.tree) (hhas : s.successors.has id = consumed)
    (hplanned : Planned s.register name (outlet.sink consumed) layers)
    (hlink : (∃ ids s', (unrollLink (unroll depth) c (some e) outlet).run.run s = (some ids, s') ∧
        Unrolls V t o name leaf layers c (outlet.sink consumed) s (ids, s')) ∨
      unrolledPart layers = [] ∧
        ∃ s', (unrollLink (unroll depth) c (some e) outlet).run.run s = (none, s') ∧ Adds s s') :
    Unrolls V t o name leaf layers c (outlet.sink consumed) s
      ((unroll (depth + 1) c (some e) outlet).run s) := by
  rcases hlink with ⟨ids, s', hrun, hunrolls⟩ | ⟨hkept, s', hrun, hadds⟩
  · rw [run_unroll_of_some hrun]
    exact hunrolls
  · let kept : State := { s' with register := s.register }
    have hmakes : Makes s kept := ⟨⟨hadds.grows, hadds.successors, hadds.patched⟩, rfl⟩
    have hgrow' : t.Grows kept.tree := hgrow.trans hmakes.grows
    have hskip' : kept.tree.skipParentheses (some e) = some id := by
      rw [hgrow'.evolves.skipParentheses ht (holds_some.mpr he), hskip]
    have hkeep : (unroll (depth + 1) c (some e) outlet).run s =
        (write c (some id) (outlet.sink consumed) true).run kept := by
      rw [run_unroll_of_none hrun, ← hadds.patched, State.unpatch_length]
      refine (run_keepLink (s := kept) hskip').trans ?_
      rw [hmakes.successors, hhas]
    rw [hkeep]
    exact (unrolls_write ht h hskip hkept hgrow' hplanned).of_makes hmakes

/-- A link that hands everything on settles as its receiver. -/
theorem Realizes.pass {inTry : Bool} {layers : List Layer} {sink : Sink} {register : Register}
    {t' : Tree} {ids : List NodeId} {id : NodeId}
    (h : Realizes V t o inTry name leaf layers sink register t' ids) :
    Realizes V t o inTry name leaf (⟨id, .pass⟩ :: layers) sink register t' ids :=
  fun m env past hgrow hknows => settleUnrolled_cons ⟨id, .pass⟩ rfl ▸
    h m env past hgrow hknows.tail

/-- A function for values is unrolled after its receiver, unless it is an async arrow. -/
theorem unrolls_unrollThen (ht : t.Closed) {callee id : NodeId} {handler : Handler}
    {callback : Callback} {layers : List Layer} (hcallback : IsCallback t o b handler callback)
    {c : Context} {outlet : Outlet} {sink : Sink} {s : State} {inner : Unroller}
    (hc : c.oracle = o) (hb : c.bindings = b) (hgrow : t.Grows s.tree)
    (hplanned : Planned s.register name sink (⟨id, .value callback⟩ :: layers))
    (hreceiver : Unrolls V t o name leaf layers c (argumentSink callback.valueKey?) s
      ((inner c (some callee) { outlet with argument := callback.valueKey? }).run s)) :
    (∃ ids s', (unrollThen inner c callee handler outlet sink).run.run s = (some ids, s') ∧
        Unrolls V t o name leaf (⟨id, .value callback⟩ :: layers) c sink s (ids, s')) ∨
      unrolledPart (⟨id, .value callback⟩ :: layers) = [] ∧
        ∃ s', (unrollThen inner c callee handler outlet sink).run.run s = (none, s') ∧
          Adds s s' := by
  generalize hrun : (inner c (some callee) { outlet with argument := callback.valueKey? }).run s =
    result at hreceiver
  obtain ⟨ids₁, s₁⟩ := result
  obtain ⟨heffect₁, hrealizes₁⟩ := hreceiver
  have hargument : Naming.valueKey? s.tree c.bindings handler = some callback.valueKey? := by
    rw [hb, (hcallback.evolves hgrow.evolves ht).valueKey?]
  have hgrow₁ : t.Grows s₁.tree := hgrow.trans heffect₁.grows
  rw [run_unrollThen hargument hrun]
  -- An async arrow is not inlined: the attempt fails, and all it has done is to make nodes.
  cases hasync : callback.isAsync with
  | true =>
      refine .inr ⟨unrolledPart_of_isAsync ⟨id, .value callback⟩ hasync, s₁, ?_, heffect₁.toAdds⟩
      exact attempt_bind_none
        (run_unrollHandler_async ht inner c callback.valueKey? sink s₁ hgrow₁ hcallback hasync)
  | false =>
      have hkeys : keysOf (⟨id, .value callback⟩ :: layers) =
          callback.valueKey?.toList ++ keysOf layers := keysOf_cons ..
      have hname : ∀ key ∈ sink.keys ++ callback.valueKey?.toList,
          s₁.register.name? key = some (name key) := by
        intro key hkey
        rw [heffect₁.name?]
        refine hplanned.name? key ?_
        rw [hkeys, ← List.append_assoc]
        exact List.mem_append_left _ hkey
      obtain ⟨ids₂, s₂, hhandler, heffect₂, hcalls⟩ := run_unrollHandler (V := V) ht inner c
        callback.valueKey? sink s₁ name hc hgrow₁ hcallback hasync (fun _ h => h) hname
      refine .inl ⟨ids₁ ++ ids₂, s₂, attempt_bind hhandler, ?_, ?_⟩
      · refine heffect₁.trans heffect₂ ?_ (List.nil_subset _)
        rw [keys_argumentSink, ← hkeys]
        exact List.subset_append_right _ _
      · refine realizes_value hasync hplanned hrealizes₁ hcalls heffect₂.grows fun key hkey => ?_
        have hout : key ∉ callback.valueKey?.toList ++ keysOf layers := by
          rw [← hkeys]
          exact hplanned.notMem hkey
        refine heffect₁.kept key (fun h => hout ?_) fun h => hout (List.mem_append_right _ h)
        exact List.mem_append_left _ (by rwa [keys_argumentSink] at h)

/-- A function for reasons is unrolled into a `try` around its receiver, unless it is an async
arrow. -/
theorem unrolls_unrollCatch (ht : t.Closed) {callee id : NodeId} {handler : Handler}
    {callback : Callback} {layers : List Layer} (hcallback : IsCallback t o b handler callback)
    {c : Context} {outlet : Outlet} {sink : Sink} {s : State} {inner : Unroller}
    (hc : c.oracle = o) (hb : c.bindings = b) (hgrow : t.Grows s.tree)
    (hplanned : Planned s.register name sink (⟨id, .reason callback⟩ :: layers))
    (hreceiver : ∀ s₁, t.Grows s₁.tree → s₁.successors = s.successors →
      Planned s₁.register name sink layers →
      Unrolls V t o name leaf layers { c with inTry := true } sink s₁
        ((inner { c with inTry := true } (some callee) outlet).run s₁)) :
    (∃ ids s', (unrollCatch inner c callee handler outlet sink).run.run s = (some ids, s') ∧
        Unrolls V t o name leaf (⟨id, .reason callback⟩ :: layers) c sink s (ids, s')) ∨
      unrolledPart (⟨id, .reason callback⟩ :: layers) = [] ∧
        ∃ s', (unrollCatch inner c callee handler outlet sink).run.run s = (none, s') ∧
          Adds s s' := by
  have hreason : Naming.reasonKey? s.tree c.bindings handler = some callback.reasonKey := by
    rw [hb, (hcallback.evolves hgrow.evolves ht).reasonKey?]
  obtain ⟨hoisted, s₁, hhoist, heffect₁, hhoists⟩ := run_hoist (V := V) sink s name
    fun key hkey => hplanned.name? key (List.mem_append_left _ hkey)
  have hplanned₁ : Planned s₁.register name sink layers :=
    hplanned.tail.of_effect heffect₁
  have hreceiver := hreceiver s₁ (hgrow.trans heffect₁.grows) heffect₁.successors hplanned₁
  generalize hrun : (inner { c with inTry := true } (some callee) outlet).run s₁ = result
    at hreceiver
  obtain ⟨tried, s₂⟩ := result
  obtain ⟨heffect₂, hrealizes₂⟩ := hreceiver
  have hgrow₂ : t.Grows s₂.tree := hgrow.trans (heffect₁.grows.trans heffect₂.grows)
  rw [run_unrollCatch hreason hhoist hrun]
  -- As for a value, an async arrow makes the attempt fail.
  cases hasync : callback.isAsync with
  | true =>
      refine .inr ⟨unrolledPart_of_isAsync ⟨id, .reason callback⟩ hasync, s₂, ?_,
        heffect₁.toAdds.trans heffect₂.toAdds⟩
      exact attempt_bind_none
        (run_unrollHandler_async ht inner c (some callback.reasonKey) sink s₂ hgrow₂ hcallback
          hasync)
  | false =>
      have hmem : callback.reasonKey ∈ keysOf (⟨id, .reason callback⟩ :: layers) := by
        rw [keysOf_cons]
        exact List.mem_append_left _ (List.mem_singleton_self _)
      have hname₂ : ∀ key ∈ sink.keys ++ keysOf (⟨id, .reason callback⟩ :: layers),
          s₂.register.name? key = some (name key) := by
        intro key hkey
        rw [heffect₂.name?, heffect₁.name?, hplanned.name? key hkey]
      -- What the handler is called with is what the `catch` names the reason.
      have hvalue : ∀ key, callback.valueKey? = some key → some callback.reasonKey = some key :=
        fun key hkey => congrArg some (Callback.reasonKey_of_valueKey? hkey)
      obtain ⟨handled, s₃, hhandler, heffect₃, hcalls⟩ := run_unrollHandler (V := V) ht inner c
        (some callback.reasonKey) sink s₂ name hc hgrow₂ hcallback hasync hvalue fun key hkey => by
          refine hname₂ key ?_
          rcases List.mem_append.mp hkey with hs | hv
          · exact List.mem_append_left _ hs
          · rw [Option.mem_toList] at hv
            rw [← Callback.reasonKey_of_valueKey? hv]
            exact List.mem_append_right _ hmem
      have htext : s₃.register.name? callback.reasonKey = some (name callback.reasonKey) := by
        rw [heffect₃.name?, hname₂ _ (List.mem_append_right _ hmem)]
      obtain ⟨tryId, s₄, hmake, hadds₄, hregister₄, htry, -⟩ :=
        run_makeTry tried handled callback.reasonKey s₃
      have hgrow₄ : s₃.tree.Grows s₄.tree := hadds₄.grows
      rw [htext] at htry
      have hparts : ∀ t', s₄.tree.Grows t' →
          Execution.tryParts? t' tryId = some (tried, name callback.reasonKey, handled) :=
        fun t' hgrow' => tryParts?_of_isTry (htry.evolves hgrow'.evolves)
      refine .inl ⟨hoisted ++ [tryId], s₄, ?_, ?_, ?_⟩
      · exact (attempt_bind hhandler).trans (attempt_bind (attempt_lift hmake))
      · rw [keysOf_cons]
        exact heffect₁.guards heffect₂ heffect₃ hadds₄ hregister₄
          fun hs => hplanned.notMem hs hmem
      · exact realizes_reason hasync hplanned hhoists hrealizes₂ hcalls hparts
          (heffect₂.grows.trans (heffect₃.grows.trans hgrow₄)) (heffect₃.grows.trans hgrow₄) hgrow₄
          heffect₁.declared heffect₂.declared

/-- What `unroll` writes for a chain settles it, if it may follow the chain to its leaf. -/
theorem unrolls_unroll (ht : t.Closed) {e : NodeId} {layers : List Layer}
    (h : Chained t o b e leaf layers) :
    ∀ (depth : Nat) (c : Context) (outlet : Outlet) (consumed : Bool) (s : State),
      2 * layers.length ≤ depth → c.oracle = o → c.bindings = b → t.Grows s.tree →
      e < t.size → Marked s.successors leaf consumed layers →
      Planned s.register name (outlet.sink consumed) layers →
      Unrolls V t o name leaf layers c (outlet.sink consumed) s
        ((unroll depth c (some e) outlet).run s) := by
  induction h with
  | @leaf e id skip link =>
      intro depth c outlet consumed s _ hc hb hgrow he hmarked hplanned
      have hheld : t.Holds (some e) := holds_some.mpr he
      have hskip : s.tree.skipParentheses (some e) = some id := by
        rw [hgrow.evolves.skipParentheses ht hheld, skip]
      have hhas : s.successors.has id = consumed := hmarked
      have hwrite :=
        unrolls_write (V := V) (b := b) ht (.leaf skip link) skip rfl (c := c) hgrow hplanned
      cases depth with
      | zero =>
          rw [unroll, run_keepLink hskip, hhas]
          exact hwrite
      | succ depth =>
          have hlink : Chain.linkOf s.tree c.oracle (some id) = .promise := by
            rw [hc, Chain.linkOf_evolves hgrow.evolves ht o
              (skip ▸ Tree.holds_skipParentheses ht hheld), link]
          have hrun : (unrollLink (unroll depth) c (some e) outlet).run.run s = _ :=
            run_unrollLink_promise hskip hlink
          rw [hhas] at hrun
          rw [run_unroll_of_some (hrun.trans (attempt_lift rfl))]
          exact hwrite
  | @layer e id callee receiver leaf form layers skip hasForm method rest ih =>
      intro depth c outlet consumed s hdepth hc hb hgrow he hmarked hplanned
      -- A link takes two steps: to itself, and to the access to its receiver.
      obtain ⟨depth, rfl⟩ : ∃ d, depth = d + 2 := ⟨depth - 2, by simp at hdepth; omega⟩
      have hdepth' : 2 * layers.length ≤ depth := by simp at hdepth; omega
      obtain ⟨arguments, hcalls⟩ := hasForm.callsMethod rfl
      obtain ⟨hhas, hmarked'⟩ := hmarked
      have hheld : t.Holds (some e) := holds_some.mpr he
      have hid : t.Holds (some id) := skip ▸ Tree.holds_skipParentheses ht hheld
      have hskip : s.tree.skipParentheses (some e) = some id := by
        rw [hgrow.evolves.skipParentheses ht hheld, skip]
      have hlink : Chain.linkOf s.tree c.oracle (some id) = Chain.linkOf t o (some id) := by
        rw [hc, Chain.linkOf_evolves hgrow.evolves ht o hid]
      have hform : HasForm s.tree c.oracle c.bindings (Chain.linkOf t o (some id)) callee receiver
          form := by
        rw [hc, hb]
        exact hasForm.evolves rfl hgrow.evolves ht
      obtain ⟨hfulfilled, hrejected⟩ := hasForm.handlers_evolves rfl hgrow.evolves ht
      refine unrolls_of_unrollLink ht (.layer skip hasForm method rest) skip he hgrow hhas
        hplanned ?_
      cases form with
      | pass =>
          have hinner := ih depth c outlet consumed s hdepth' hc hb hgrow
            (hcalls.receiver_lt_size ht) (by simpa [Form.consumes] using hmarked') hplanned.tail
          rw [← run_unroll_callee ht hgrow.evolves hcalls (by rw [hc, method])] at hinner
          generalize hrun : (unroll (depth + 1) c (some callee) outlet).run s = result at hinner
          obtain ⟨ids, s'⟩ := result
          refine .inl ⟨ids, s', ?_, hinner.1, hinner.2.pass⟩
          exact (run_unrollLink_pass hskip hlink hform).trans (attempt_lift hrun)
      | value callback =>
          have hinner := ih depth c { outlet with argument := callback.valueKey? } true s hdepth' hc
            hb hgrow (hcalls.receiver_lt_size ht) (by simpa [Form.consumes] using hmarked')
            hplanned.argument
          have hlinkRun : (unrollLink (unroll (depth + 1)) c (some e) outlet).run.run s = _ :=
            run_unrollLink_value hskip hlink hform
          rw [hc, hfulfilled, hhas] at hlinkRun
          rw [hlinkRun]
          refine unrolls_unrollThen ht hasForm.of_value hc hb hgrow hplanned ?_
          rw [run_unroll_callee ht hgrow.evolves hcalls (by rw [hc, method])]
          exact hinner
      | reason callback =>
          have hlinkRun : (unrollLink (unroll (depth + 1)) c (some e) outlet).run.run s = _ :=
            run_unrollLink_reason hskip hlink hform
          rw [hc, hrejected, hhas] at hlinkRun
          rw [hlinkRun]
          refine unrolls_unrollCatch ht hasForm.of_reason hc hb hgrow hplanned ?_
          intro s₁ hgrow₁ hsuccessors hplanned₁
          rw [run_unroll_callee ht hgrow₁.evolves hcalls (by rw [hc, method])]
          exact ih depth { c with inTry := true } outlet consumed s₁ hdepth' hc hb hgrow₁
            (hcalls.receiver_lt_size ht)
            (by rw [hsuccessors]; simpa [Form.consumes] using hmarked') hplanned₁

end

end Unchain.Unroll
