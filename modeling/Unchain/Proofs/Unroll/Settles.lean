import Unchain.Proofs.Chain.Marked
import Unchain.Proofs.Unroll.Callbacks

/-!
# Unrolled chains settle as chains

Running the statements for a chain evaluates what settling the chain evaluates,
in the same order and with the same arguments, and brings what the chain settles
to to the sink. The leaf stands in the statements, though, inside of the `try` of
the functions for reasons. So they are called for what the evaluation of the leaf
throws as well, for which settling the chain calls none: `settleUnrolled` is what
the statements come to.

The proof is by induction on the layers of the chain: the statements for the
receiver deliver to the binding that the next function reads (`realizes_value`),
or to the sink of the whole chain from within a `try` (`realizes_reason`).
-/

namespace Unchain.Unroll

open Binding (Table)
open Chain (Callback Chained Form HasForm Handler IsCallback Layer keysOf keysOf_cons)
open Execution (Env Machine Moment Runs Sense sensesOf sensesOfCallback sensesOfForm)
open Naming (Key Register)
open Promise (History Oracle Outcome World)
open Syntax (Data NodeId Tree)
open Syntax.Tree (holds_some)

variable {V : Type}

/-! ### What the statements come to -/

/-- The links of a chain that are unrolled. The outermost one whose function is an async arrow is
kept as written, with all that it is called on. -/
def unrolledPart (layers : List Layer) : List Layer :=
  layers.takeWhile fun layer => !layer.form.callback?.any Callback.isAsync

/-- What a chain comes to where it is unrolled, and the history after it: as it settles, but what
the evaluation of the leaf throws is a reason for the links that are unrolled. -/
def settleUnrolled (t : Tree) (w : World V) (layers : List Layer) (past : History V) :
    Outcome V × History V :=
  match w.perform false .leaf past with
  | (.ok v, past) => Chain.reactAll t w layers (w.resolve v, past)
  | (.error x, past) => Chain.reactAll t w (unrolledPart layers) (.error x, past)

section

variable {t : Tree} {w : World V} {past : History V} {layer : Layer} {layers : List Layer}

theorem settleUnrolled_of_yields {v : V} (h : w.evaluate past .leaf = .ok v) :
    settleUnrolled t w layers past = Chain.settle t w layers past := by
  rw [settleUnrolled, Chain.settle_of_yields t h, World.perform, h]
  rfl

theorem settleUnrolled_of_throws {x : V} (h : w.evaluate past .leaf = .error x) :
    settleUnrolled t w layers past =
      Chain.reactAll t w (unrolledPart layers) (.error x, past ++ [.leaf]) := by
  rw [settleUnrolled, World.perform, h]
  rfl

/-- A link with an async arrow is kept. -/
theorem unrolledPart_of_isAsync (layer : Layer)
    (h : layer.form.callback?.any Callback.isAsync = true) :
    unrolledPart (layer :: layers) = [] :=
  List.takeWhile_cons_of_neg (by simp [h])

/-- A chain that is kept as a whole settles as it is written. -/
theorem settleUnrolled_of_kept (h : unrolledPart layers = []) :
    settleUnrolled t w layers past = Chain.settle t w layers past := by
  cases hleaf : w.evaluate past .leaf with
  | ok v => exact settleUnrolled_of_yields hleaf
  | error x =>
      rw [settleUnrolled_of_throws hleaf, h, Chain.settle_of_throws t hleaf]
      rfl

/-- Links without a function for reasons hand on what the evaluation of the leaf throws. -/
theorem reactAll_error_of_forall {x : V} (h : ∀ layer ∈ layers, ∀ callback,
      layer.form ≠ .reason callback) :
    Chain.reactAll t w layers (.error x, past) = (.error x, past) := by
  induction layers with
  | nil => rfl
  | cons layer layers ih =>
      obtain ⟨hlayer, hlayers⟩ := List.forall_mem_cons.mp h
      change layer.form.react t w (Chain.reactAll t w layers (.error x, past)) = _
      rw [ih hlayers]
      cases hform : layer.form with
      | pass | value callback => rfl
      | reason callback => exact absurd hform (hlayer callback)

/-- So a chain comes to what it settles to if its leaf gives a value, or if no link that is unrolled
has a function for reasons. -/
theorem settleUnrolled_eq_settle (h : (∃ v, w.evaluate past .leaf = .ok v) ∨
      ∀ layer ∈ unrolledPart layers, ∀ callback, layer.form ≠ .reason callback) :
    settleUnrolled t w layers past = Chain.settle t w layers past := by
  cases hleaf : w.evaluate past .leaf with
  | ok v => exact settleUnrolled_of_yields hleaf
  | error x =>
      have hnone := h.resolve_left fun ⟨v, hv⟩ => nomatch hleaf.symm.trans hv
      rw [settleUnrolled_of_throws hleaf, Chain.settle_of_throws t hleaf,
        reactAll_error_of_forall hnone]

/-- A link that is unrolled reacts to what the chain below it comes to. -/
theorem settleUnrolled_cons (layer : Layer)
    (h : layer.form.callback?.any Callback.isAsync = false) :
    settleUnrolled t w (layer :: layers) past =
      layer.form.react t w (settleUnrolled t w layers past) := by
  rw [settleUnrolled, settleUnrolled, unrolledPart, List.takeWhile_cons_of_pos (by simp [h])]
  split <;> rfl

end

/-! ### What is known ahead -/

/-- The bindings of a sink and of a chain have names of their own, and those of the chain are not
declared yet. -/
structure Planned (register : Register) (name : Key → String) (sink : Sink)
    (layers : List Layer) : Prop where
  name? : ∀ key ∈ sink.keys ++ keysOf layers, register.name? key = some (name key)
  undeclared : ∀ key ∈ keysOf layers, register.isDeclared key = false
  distinct : ((sink.keys ++ keysOf layers).map name).Nodup

/-- What a machine has to know about a chain. New nodes have no meaning in the source. -/
structure Knows (m : Machine V) (t : Tree) (o : Oracle) (name : Key → String) (leaf : NodeId)
    (layers : List Layer) : Prop where
  senses : ∀ entry ∈ sensesOf leaf layers, m.senses.lookup entry.1 = some entry.2
  fresh : ∀ id : NodeId, t.size ≤ id → m.senses.lookup id = none
  spelled : ∀ layer ∈ layers, ∀ callback, layer.form.callback? = some callback →
    Spelled t name callback
  exact_ : ∀ layer ∈ layers, ∀ callback, layer.form.callback? = some callback →
    ExactFor m.world t o callback

/-- The names of a chain are free. -/
def Free (env : Env V) (name : Key → String) (layers : List Layer) : Prop :=
  ∀ key ∈ keysOf layers, env (name key) = none

/-- The statements `ids` of `t'` settle a chain of `t` and bring what it comes to to the sink. -/
def Realizes (V : Type) (t : Tree) (o : Oracle) (inTry : Bool) (name : Key → String)
    (leaf : NodeId) (layers : List Layer) (sink : Sink) (register : Register) (t' : Tree)
    (ids : List NodeId) : Prop :=
  ∀ (m : Machine V) (env : Env V) (past : History V), t'.Grows m.tree →
    Knows m t o name leaf layers → Suits register name sink env → Free env name layers →
    ∃ k, Runs m ⟨env, past, .normal⟩ ids k ∧
      Delivers m.world inTry name sink (keysOf layers) env
        (settleUnrolled t m.world layers past) k

section

variable {t : Tree} {o : Oracle} {b : Table} {name : Key → String} {leaf : NodeId}
  {layer : Layer} {layers : List Layer}

namespace Knows

variable {m : Machine V}

theorem tail (h : Knows m t o name leaf (layer :: layers)) : Knows m t o name leaf layers where
  senses entry hentry := h.senses entry
    (List.mem_cons_of_mem _ (List.mem_append_right _ hentry))
  fresh := h.fresh
  spelled other hother := h.spelled other (List.mem_cons_of_mem _ hother)
  exact_ other hother := h.exact_ other (List.mem_cons_of_mem _ hother)

theorem callback (h : Knows m t o name leaf (layer :: layers)) {callback : Callback}
    (hc : layer.form.callback? = some callback) : KnowsCallback m t o name callback where
  senses entry hentry := by
    refine h.senses entry (List.mem_cons_of_mem _ (List.mem_append_left _ ?_))
    obtain ⟨link, form⟩ := layer
    cases form with
    | pass => cases hc
    | value other | reason other =>
        cases hc
        exact hentry
  spelled := h.spelled layer List.mem_cons_self callback hc
  exact_ := h.exact_ layer List.mem_cons_self callback hc

end Knows

/-! ### Chains that are kept as written -/

/-- An expression of a chain means what the chain settles to. -/
theorem atom?_chained {m : Machine V} {e id : NodeId} (ht : t.Closed) (hgrow : t.Grows m.tree)
    (h : Chained t o b e leaf layers) (hskip : t.skipParentheses (some e) = some id)
    (hknows : Knows m t o name leaf layers) (env : Env V) (past : History V) :
    ∃ r, m.atom? env past id = some r ∧
      (m.world.await r.1, r.2) = Chain.settle t m.world layers past ∧ m.IsAtom id := by
  have hsame := Chain.evaluate_evolves (w := m.world) h hgrow.evolves ht past
  cases h with
  | leaf skip link =>
      obtain rfl := Option.some.inj (skip.symm.trans hskip)
      have hsense := hknows.senses _ (List.mem_singleton_self _)
      refine ⟨m.world.perform false .leaf past, ?_, ?_,
        fun hnone => by rw [hsense] at hnone; cases hnone⟩
      · unfold Machine.atom?
        rw [hsense]
      · rw [Chain.settle]
        obtain ⟨v | x, past'⟩ := m.world.perform false .leaf past <;> rfl
  | layer skip hasForm method rest =>
      obtain rfl := Option.some.inj (skip.symm.trans hskip)
      have hsense := hknows.senses _ List.mem_cons_self
      refine ⟨_, ?_, Chain.await_evaluate t _ past,
        fun hnone => by rw [hsense] at hnone; cases hnone⟩
      unfold Machine.atom?
      rw [hsense]
      exact congrArg some hsame

/-- A chain that is kept as written brings what it settles to to the sink. -/
theorem realizes_write (ht : t.Closed) {e id : NodeId} (h : Chained t o b e leaf layers)
    (hskip : t.skipParentheses (some e) = some id) (hkept : unrolledPart layers = [])
    (c : Context) (sink : Sink) (s : State) (hgrow : t.Grows s.tree)
    (hname : ∀ key ∈ sink.keys, s.register.name? key = some (name key)) :
    ∃ ids s', (write c (some id) sink true).run s = (ids, s') ∧
      Effect sink (keysOf layers) s s' ∧
      Realizes V t o c.inTry name leaf layers sink s.register s'.tree ids := by
  obtain ⟨ids, s', hrun, heffect, hwrite⟩ := run_write (V := V) c id sink true s name hname
  refine ⟨ids, s', hrun, heffect.mono (List.nil_subset _), ?_⟩
  intro m env past hgrow' hknows hsuits hfree
  obtain ⟨r, hatom, hawait, hisAtom⟩ :=
    atom?_chained ht (hgrow.trans (heffect.grows.trans hgrow')) h hskip hknows env past
  obtain ⟨k, hruns, hdelivers⟩ := hwrite m env past r
    (fun other hother => hknows.fresh other (Nat.le_trans hgrow.evolves.size_le hother))
    hgrow' hisAtom hsuits hatom ⟨nofun, nofun⟩
  refine ⟨k, hruns, ?_⟩
  rw [hawait, ← settleUnrolled_of_kept hkept] at hdelivers
  exact hdelivers.mono (List.nil_subset _)

/-! ### Sinks and plans -/

@[simp] theorem keys_argumentSink (argument : Option Key) :
    (argumentSink argument).keys = argument.toList := by
  cases argument <;> rfl

theorem Arrives.normal {w : World V} {inTry : Bool} {k : Moment V} {argument : Option Key}
    {v : V} (h : Arrives w inTry name k (argumentSink argument) (.ok v)) :
    k.completion = .normal := by
  cases argument with
  | none => exact h
  | some key => exact h.1

theorem Arrives.supplies {w : World V} {inTry : Bool} {k : Moment V} {callback : Callback}
    {v : V} (h : Arrives w inTry name k (argumentSink callback.valueKey?) (.ok v)) :
    Supplies name k.env callback v := by
  intro key hkey
  rw [hkey] at h
  exact h.2

namespace Planned

variable {register : Register} {sink : Sink}

theorem ne (h : Planned register name sink layers) {key key' : Key} (hkey : key ∈ sink.keys)
    (hkey' : key' ∈ keysOf layers) : name key ≠ name key' := by
  have hnodup := h.distinct
  rw [List.map_append, List.nodup_append] at hnodup
  exact hnodup.2.2 _ (List.mem_map_of_mem hkey) _ (List.mem_map_of_mem hkey')

theorem notMem (h : Planned register name sink layers) {key : Key} (hkey : key ∈ sink.keys) :
    key ∉ keysOf layers := fun hmem => h.ne hkey hmem rfl

/-- The receiver of a link is planned for any sink of bindings that are planned for the link. -/
theorem receiver (h : Planned register name sink (layer :: layers)) {inner : Sink}
    (hinner : inner.keys.Sublist (sink.keys ++ layer.form.key?.toList)) :
    Planned register name inner layers := by
  have hsub : (inner.keys ++ keysOf layers).Sublist (sink.keys ++ keysOf (layer :: layers)) := by
    rw [keysOf_cons, ← List.append_assoc]
    exact hinner.append (List.Sublist.refl _)
  refine ⟨fun key hkey => h.name? key (hsub.subset hkey), fun key hkey => ?_,
    h.distinct.sublist (hsub.map name)⟩
  exact h.undeclared key (by rw [keysOf_cons]; exact List.mem_append_right _ hkey)

theorem tail (h : Planned register name sink (layer :: layers)) :
    Planned register name sink layers := h.receiver (List.sublist_append_left ..)

theorem argument {id : NodeId} {callback : Callback}
    (h : Planned register name sink (⟨id, .value callback⟩ :: layers)) :
    Planned register name (argumentSink callback.valueKey?) layers := by
  refine h.receiver ?_
  rw [keys_argumentSink]
  exact List.sublist_append_right ..

/-- A plan is not affected by what happens to the bindings of the sink. -/
theorem of_effect {s s' : State} (h : Planned s.register name sink layers)
    (heffect : Effect sink [] s s') : Planned s'.register name sink layers where
  name? key hkey := by rw [heffect.name?, h.name? key hkey]
  undeclared key hkey := by
    rw [heffect.kept key (fun hmem => h.notMem hmem hkey) nofun, h.undeclared key hkey]
  distinct := h.distinct

end Planned

/-! ### Receivers and functions -/

/-- A function after its receiver: the statements for the receiver deliver to the binding that the
function reads. -/
theorem realizes_value {callback : Callback} {id : NodeId} {inTry : Bool} {sink : Sink}
    {register register₁ : Register} {t₁ t₂ : Tree} {ids₁ ids₂ : List NodeId}
    (hsync : callback.isAsync = false)
    (hplanned : Planned register name sink (⟨id, .value callback⟩ :: layers))
    (hreceiver : Realizes V t o inTry name leaf layers (argumentSink callback.valueKey?) register
      t₁ ids₁)
    (hcall : Calls V t o inTry name callback sink register₁ t₂ ids₂)
    (hgrow : t₁.Grows t₂)
    (hdeclared : ∀ key ∈ sink.keys, register₁.isDeclared key = register.isDeclared key) :
    Realizes V t o inTry name leaf (⟨id, .value callback⟩ :: layers) sink register t₂
      (ids₁ ++ ids₂) := by
  intro m env past hgrow' hknows hsuits hfree
  have hkeys : ∀ key ∈ callback.valueKey?.toList ++ keysOf layers,
      key ∈ keysOf (⟨id, .value callback⟩ :: layers) := fun key hkey => by
    rw [keysOf_cons]
    exact hkey
  have hsuits₁ : Suits register name (argumentSink callback.valueKey?) env := by
    refine ⟨fun key hkey hd => ?_, fun key hkey _ => ?_⟩
    all_goals rw [keys_argumentSink] at hkey
    · rw [hplanned.undeclared key (hkeys key (List.mem_append_left _ hkey))] at hd
      cases hd
    · exact hfree key (hkeys key (List.mem_append_left _ hkey))
  obtain ⟨k₁, hruns₁, hdelivers₁⟩ := hreceiver m env past (hgrow.trans hgrow') hknows.tail
    hsuits₁ fun key hkey => hfree key (hkeys key (List.mem_append_right _ hkey))
  -- The receiver writes to bindings of the chain alone, so the sink holds what it held.
  have hframe : ∀ text, (∀ key ∈ keysOf (⟨id, .value callback⟩ :: layers), text ≠ name key) →
      k₁.env text = env text := by
    intro text htext
    refine hdelivers₁.frame text (fun key hkey => ?_) fun key hkey => ?_
    · rw [keys_argumentSink] at hkey
      exact htext key (hkeys key (List.mem_append_left _ hkey))
    · exact htext key (hkeys key (List.mem_append_right _ hkey))
  have hsink : ∀ key ∈ sink.keys, k₁.env (name key) = env (name key) :=
    fun key hkey => hframe _ fun key' hkey' => hplanned.ne hkey hkey'
  rw [settleUnrolled_cons ⟨id, .value callback⟩ hsync]
  generalize settleUnrolled t m.world layers past = settled at hdelivers₁ ⊢
  obtain ⟨r, past₁⟩ := settled
  -- If the receiver fails, its statements throw and those of the handler are not reached.
  cases r with
  | error x =>
      have hthrown : k₁.completion = .thrown x := by
        refine hdelivers₁.arrives.thrown fun h => ?_
        cases hkey : callback.valueKey? <;> simp [argumentSink, hkey] at h
      refine ⟨k₁, hruns₁.append (.of_abrupt (by simp [hthrown]) _), hdelivers₁.past,
        arrives_error _ _ _ hthrown _, fun text _ htext => hframe text htext,
        fun _ _ key hkey _ => hsink key hkey⟩
  | ok v =>
      have hnormal : k₁.completion = .normal := hdelivers₁.arrives.normal
      obtain ⟨env₁, past₁', completion₁⟩ := k₁
      obtain rfl : past₁' = past₁ := hdelivers₁.past
      obtain rfl : completion₁ = .normal := hnormal
      obtain ⟨k₂, hruns₂, hdelivers₂⟩ := hcall m env₁ past₁' v hknows.fresh hgrow'
        (hknows.callback rfl) (hsuits.of_same hdeclared hsink) hdelivers₁.arrives.supplies
      refine ⟨k₂, hruns₁.append hruns₂, hdelivers₂.past, hdelivers₂.arrives, ?_, ?_⟩
      · intro text hs hk
        rw [hdelivers₂.frame text hs fun _ hkey => absurd hkey List.not_mem_nil]
        exact hframe text hk
      · intro x hx key hkey hsome
        rw [← hsink key hkey] at hsome ⊢
        exact hdelivers₂.kept x hx key hkey hsome

theorem arrives_ok_ne_thrown {w : World V} {inTry : Bool} {k : Moment V} {sink : Sink} {v : V}
    (h : Arrives w inTry name k sink (.ok v)) (x : V) : k.completion ≠ .thrown x := by
  cases sink with
  | returned =>
      rcases h with ⟨u, hu, -⟩ | ⟨y, hy, -⟩
      · rw [hu]
        nofun
      · cases hy
  | binding key =>
      rw [h.1]
      nofun
  | discarded =>
      rw [show k.completion = .normal from h]
      nofun

/-- What is right inside of a `try` is right outside as well. -/
theorem Arrives.outside {w : World V} {k : Moment V} {sink : Sink} {outcome : Outcome V}
    (h : Arrives w true name k sink outcome) (inTry : Bool) :
    Arrives w inTry name k sink outcome := by
  cases sink with
  | returned =>
      rcases h with ⟨v, hv, hresolve, htry⟩ | herror
      · exact .inl ⟨v, hv, hresolve, fun _ => htry rfl⟩
      · exact .inr herror
  | binding key => cases outcome <;> exact h
  | discarded => cases outcome <;> exact h

/-- What has come to a sink is still there after a block, if its bindings are from outside. -/
theorem Arrives.leave {w : World V} {inTry : Bool} {k : Moment V} {sink : Sink}
    {outcome : Outcome V} (h : Arrives w inTry name k sink outcome) {outer : Env V}
    (hold : ∀ key ∈ sink.keys, (outer (name key)).isSome) :
    Arrives w inTry name (k.leave outer) sink outcome := by
  cases sink with
  | returned => exact h
  | discarded => cases outcome <;> exact h
  | binding key =>
      cases outcome with
      | error x => exact h
      | ok v =>
          obtain ⟨hnormal, isConst, hcell⟩ := h
          obtain ⟨cell, ho⟩ := Option.isSome_iff_exists.mp
            (hold key (List.mem_singleton_self key))
          refine ⟨hnormal, isConst, ?_⟩
          show outer.leave k.env (name key) = _
          rw [Env.leave_of_some _ ho, hcell]

/-- A function for reasons: the statements for the receiver deliver from within a `try`, and those
for the function from its `catch`. -/
theorem realizes_reason {callback : Callback} {id tryId : NodeId} {inTry : Bool} {sink : Sink}
    {register register₁ register₂ : Register} {t₁ t₂ t₃ t₄ : Tree}
    {hoisted tried handled : List NodeId} (hsync : callback.isAsync = false)
    (hplanned : Planned register name sink (⟨id, .reason callback⟩ :: layers))
    (hhoist : Hoists V name sink register register₁ t₁ hoisted)
    (hreceiver : Realizes V t o true name leaf layers sink register₁ t₂ tried)
    (hcall : Calls V t o inTry name callback sink register₂ t₃ handled)
    (htry : ∀ t', t₄.Grows t' →
      Execution.tryParts? t' tryId = some (tried, name callback.reasonKey, handled))
    (hgrow₁ : t₁.Grows t₄) (hgrow₂ : t₂.Grows t₄) (hgrow₃ : t₃.Grows t₄)
    (hdeclared₁ : ∀ key ∈ sink.keys, register₁.isDeclared key = true)
    (hdeclared₂ : ∀ key ∈ sink.keys, register₂.isDeclared key = true) :
    Realizes V t o inTry name leaf (⟨id, .reason callback⟩ :: layers) sink register t₄
      (hoisted ++ [tryId]) := by
  intro m env past hgrow hknows hsuits hfree
  have hkeys : ∀ key ∈ keysOf layers, key ∈ keysOf (⟨id, .reason callback⟩ :: layers) :=
    fun key hkey => by
      rw [keysOf_cons]
      exact List.mem_append_right _ hkey
  have hreason : callback.reasonKey ∈ keysOf (⟨id, .reason callback⟩ :: layers) := by
    rw [keysOf_cons]
    exact List.mem_append_left _ (List.mem_singleton_self _)
  obtain ⟨env₀, hruns₀, hsuits₀, hframe₀, hkept₀⟩ :=
    hhoist m env past (hgrow₁.trans hgrow) hsuits
  -- The hoisted names are those of the sink, so the names of the chain are still free.
  have hfree₀ : ∀ key ∈ keysOf (⟨id, .reason callback⟩ :: layers), env₀ (name key) = none := by
    intro key hkey
    rw [hframe₀ _ fun key' hkey' => (hplanned.ne hkey' hkey).symm]
    exact hfree key hkey
  have hold : ∀ key ∈ sink.keys, (env₀ (name key)).isSome := by
    intro key hkey
    obtain ⟨v, hv⟩ := hsuits₀.declared key hkey (hdeclared₁ key hkey)
    rw [hv]
    rfl
  obtain ⟨k₁, hruns₁, hdelivers₁⟩ := hreceiver m env₀ past (hgrow₂.trans hgrow) hknows.tail
    hsuits₀ fun key hkey => hfree₀ key (hkeys key hkey)
  rw [settleUnrolled_cons ⟨id, .reason callback⟩ hsync]
  generalize settleUnrolled t m.world layers past = settled at hdelivers₁ ⊢
  obtain ⟨r, past₁⟩ := settled
  cases r with
  | ok v =>
      have harrives := (hdelivers₁.arrives.leave hold).outside inTry
      refine ⟨k₁.leave env₀, hruns₀.append (.tried rfl (htry _ hgrow) hruns₁
        (arrives_ok_ne_thrown hdelivers₁.arrives) (.nil _)), hdelivers₁.past, harrives, ?_, ?_⟩
      · intro text hs hk
        have hsame : k₁.env text = env₀ text :=
          hdelivers₁.frame text hs fun key hkey => hk key (hkeys key hkey)
        exact (Env.leave_of_eq hsame).trans (hframe₀ text hs)
      · intro y hy
        cases hy
  | error x =>
      have hthrown : k₁.completion = .thrown x := hdelivers₁.arrives.thrown fun _ => rfl
      have hleave : env₀.leave k₁.env = env₀ := by
        refine Env.leave_eq_self fun text hsome => ?_
        by_cases hs : ∃ key ∈ sink.keys, text = name key
        · obtain ⟨key, hkey, rfl⟩ := hs
          exact hdelivers₁.kept x rfl key hkey hsome
        · refine hdelivers₁.frame text (fun key hkey heq => hs ⟨key, hkey, heq⟩) ?_
          intro key hkey heq
          rw [heq, hfree₀ key (hkeys key hkey)] at hsome
          cases hsome
      have hentry : (k₁.leave env₀).handle (name callback.reasonKey) x =
          ⟨env₀.set (name callback.reasonKey) ⟨x, false⟩, past₁, .normal⟩ := by
        rw [Moment.handle, Moment.leave, hleave, hdelivers₁.past]
      have hset : ∀ key ∈ sink.keys,
          env₀.set (name callback.reasonKey) ⟨x, false⟩ (name key) = env₀ (name key) :=
        fun key hkey => env₀.set_of_ne _ (hplanned.ne hkey hreason)
      have hsupplies :
          Supplies name (env₀.set (name callback.reasonKey) ⟨x, false⟩) callback x := by
        intro key hkey
        rw [Callback.reasonKey_of_valueKey? hkey]
        exact ⟨false, Env.set_self ..⟩
      obtain ⟨k₂, hruns₂, hdelivers₂⟩ := hcall m _ past₁ x hknows.fresh (hgrow₃.trans hgrow)
        (hknows.callback rfl)
        (hsuits₀.of_same (fun key hkey => by rw [hdeclared₂ key hkey, hdeclared₁ key hkey]) hset)
        hsupplies
      refine ⟨k₂.leave env₀, hruns₀.append (.caught rfl (htry _ hgrow) hruns₁ hthrown
        (hfree₀ _ hreason) (by rw [hentry]; exact hruns₂) (.nil _)), hdelivers₂.past,
        hdelivers₂.arrives.leave hold, ?_, ?_⟩
      · intro text hs hk
        have hsame : k₂.env text = env₀ text := by
          rw [hdelivers₂.frame text hs fun _ hkey => absurd hkey List.not_mem_nil,
            env₀.set_of_ne _ (hk _ hreason)]
        exact (Env.leave_of_eq hsame).trans (hframe₀ text hs)
      · intro y hy key hkey hsome
        have hsame : k₂.env (name key) = env₀ (name key) := by
          rw [← hset key hkey]
          exact hdelivers₂.kept y hy key hkey (by rw [hset key hkey]; exact hold key hkey)
        exact (Env.leave_of_eq hsame).trans (hkept₀ key hkey hsome)

end

end Unchain.Unroll
