import Unchain.Proofs.Unroll.Events

/-!
# What the written statements do

`Depicts` reads off statements what they do to bindings. It passes over the
statements of the source, and over those that were made and declare and write
nothing (`IsPlain.writes_nothing`). `Emits` says that the statements that a step
gives do what the register has recorded; it holds of a value that is written
(`emits_write`) and of what is declared ahead (`emits_hoist`).
-/

namespace Unchain

open Naming (Key Register)
open Syntax (Data NodeId Tree)

namespace Unroll

/-! ### What statements do -/

section

variable (base : Nat) (t : Tree) (name : Key → Option String)

/-- An expression of the source, or one that was made and assigns nothing. The source has `base`
nodes. -/
def IsValue (e : Option NodeId) : Prop :=
  ∀ id, e = some id →
    id < base ∨ ∃ d, t.data? id = some d ∧ ∀ left op right, d ≠ .binary left op right

/-- A statement of the source, a return, or a value that is dropped. -/
def IsPlain (id : NodeId) : Prop :=
  id < base ∨ (∃ e, t.data? id = some (.leave .returns e)) ∨
    ∃ e, t.data? id = some (.expressionStatement .statement e) ∧ IsValue base t e

/-- What statements do to bindings, one after another; those of a `try` come before its `catch`.
The source has `base` nodes, all other statements were made. -/
inductive Depicts : List NodeId → List Event → Prop
  | nil : Depicts [] []
  | plain {id : NodeId} {ids : List NodeId} {es : List Event} :
      IsPlain base t id → Depicts ids es → Depicts (id :: ids) es
  | declares {key : Key} {text : String} {value : Option NodeId} {isConst : Bool} {id : NodeId}
      {ids : List NodeId} {es : List Event} :
      name key = some text → base ≤ id → IsVariable t text value (!isConst) id →
      Depicts ids es → Depicts (id :: ids) (.declares key isConst :: es)
  | assigns {key : Key} {text : String} {value : Option NodeId} {e id : NodeId}
      {ids : List NodeId} {es : List Event} :
      name key = some text → base ≤ e → IsAssignment t text value e id →
      Depicts ids es → Depicts (id :: ids) (.assigns key :: es)
  | hoists {key : Key} {text : String} {id : NodeId} {ids : List NodeId} {es : List Event} :
      name key = some text → base ≤ id → IsVariable t text none true id →
      Depicts ids es → Depicts (id :: ids) (.hoists key :: es)
  | guards {key : Key} {id : NodeId} {tried handled ids : List NodeId}
      {es₁ es₂ es : List Event} : base ≤ id → IsTry t tried (name key) handled id →
      Depicts tried es₁ → Depicts handled es₂ → Depicts ids es →
      Depicts (id :: ids) (es₁ ++ (es₂ ++ .catches key :: es))

end

section

variable {base : Nat} {t t' : Tree} {name : Key → Option String}

theorem isValue_none : IsValue base t none := fun _ h => nomatch h

theorem isValue_of_lt {e : NodeId} (h : e < base) : IsValue base t (some e) := by
  rintro _ ⟨⟩
  exact .inl h

theorem isValue_of_data? {e : NodeId} {d : Data} (h : t.data? e = some d)
    (hd : ∀ left op right, d ≠ .binary left op right) : IsValue base t (some e) := by
  rintro _ ⟨⟩
  exact .inr ⟨d, h, hd⟩

theorem IsValue.evolves {e : Option NodeId} (h : IsValue base t e) (hgrow : t.Evolves t') :
    IsValue base t' e := by
  intro id hid
  refine (h id hid).imp_right fun ⟨d, hd, hne⟩ => ?_
  rcases hgrow.data?_cases (Tree.lt_size_of_data? hd) with hsame | ⟨x, x', -, hreturn⟩
  · exact ⟨d, hsame.trans hd, hne⟩
  · exact ⟨_, hreturn, by simp⟩

theorem IsPlain.evolves {id : NodeId} (h : IsPlain base t id) (hgrow : t.Evolves t') :
    IsPlain base t' id := by
  rcases h with hid | ⟨e, hreturn⟩ | ⟨e, hstatement, hvalue⟩
  · exact .inl hid
  · refine .inr (.inl ?_)
    -- It may return something else now, namely what it returned with `await` in front.
    cases e with
    | none => exact ⟨none, hgrow.data? hreturn (by simp)⟩
    | some e =>
        obtain ⟨e', hreturn', -⟩ := hgrow.returns hreturn
        exact ⟨some e', hreturn'⟩
  · exact .inr (.inr ⟨e, hgrow.data? hstatement (by simp), hvalue.evolves hgrow⟩)

/-- A plain statement that was made declares nothing, assigns nothing and is no `try`. -/
theorem IsPlain.writes_nothing {id : NodeId} (h : IsPlain base t id) (hid : base ≤ id) :
    (∀ text value isLet, ¬ IsVariable t text value isLet id) ∧
      (∀ text value e, base ≤ e → ¬ IsAssignment t text value e id) ∧
        ∀ tried text handled, ¬ IsTry t tried text handled id := by
  rcases h with hold | ⟨e, hreturn⟩ | ⟨e, hstatement, hvalue⟩
  · exact absurd hid (Nat.not_le_of_lt hold)
  · refine ⟨?_, ?_, ?_⟩
    · rintro text value isLet ⟨declarator, hnode, -⟩
      cases hreturn.symm.trans hnode.data?
    · rintro text value e' - ⟨target, hnode, -⟩
      cases hreturn.symm.trans hnode
    · rintro tried text handled ⟨block, clause, binding, body, hnode, -⟩
      cases hreturn.symm.trans hnode
  · refine ⟨?_, ?_, ?_⟩
    · rintro text value isLet ⟨declarator, hnode, -⟩
      cases hstatement.symm.trans hnode.data?
    · rintro text value e' he ⟨target, hnode, hassigns, -⟩
      cases hstatement.symm.trans hnode
      rcases hvalue e' rfl with hold | ⟨d, hd, hne⟩
      · exact absurd he (Nat.not_le_of_lt hold)
      · exact hne _ _ _ (Option.some.inj (hd.symm.trans hassigns))
    · rintro tried text handled ⟨block, clause, binding, body, hnode, -⟩
      cases hstatement.symm.trans hnode

namespace Depicts

variable {ids ids' : List NodeId} {es es' : List Event}

/-- What statements do stays the same while others are made. -/
theorem evolves (h : Depicts base t name ids es) (hgrow : t.Evolves t') :
    Depicts base t' name ids es := by
  induction h with
  | nil => exact .nil
  | plain hplain _ ih => exact .plain (hplain.evolves hgrow) ih
  | declares hname hid hvariable _ ih =>
      exact .declares hname hid (hvariable.evolves hgrow) ih
  | assigns hname he hassignment _ ih =>
      exact .assigns hname he (hassignment.evolves hgrow) ih
  | hoists hname hid hvariable _ ih => exact .hoists hname hid (hvariable.evolves hgrow) ih
  | guards hid htry _ _ _ ih₁ ih₂ ih => exact .guards hid (htry.evolves hgrow) ih₁ ih₂ ih

theorem append (h : Depicts base t name ids es) (h' : Depicts base t name ids' es') :
    Depicts base t name (ids ++ ids') (es ++ es') := by
  induction h with
  | nil => exact h'
  | plain hplain _ ih => exact .plain hplain ih
  | declares hname hid hvariable _ ih => exact .declares hname hid hvariable ih
  | assigns hname he hassignment _ ih => exact .assigns hname he hassignment ih
  | hoists hname hid hvariable _ ih => exact .hoists hname hid hvariable ih
  | @guards _ _ _ _ _ es₁ es₂ es hid htry h₁ h₂ _ _ _ ih =>
      rw [List.append_assoc, List.append_assoc, List.cons_append]
      exact .guards hid htry h₁ h₂ ih

end Depicts

end

/-! ### What steps do -/

/-- The statements `ids` do to bindings what the register has recorded from `s` to `s'`. -/
structure Emits (base : Nat) (s : State) (ids : List NodeId) (s' : State) : Prop where
  evolves : s.tree.Evolves s'.tree
  events : ∃ es, Depicts base s'.tree s.register.name? ids es ∧
    Follows s.register es s'.register

namespace Emits

variable {base : Nat} {s s₁ s' : State} {ids ids' : List NodeId} {id : NodeId}

/-- A step that gives no statement and changes no names. -/
theorem silent (hgrow : s.tree.Evolves s'.tree) (hregister : s'.register = s.register) :
    Emits base s [] s' :=
  ⟨hgrow, [], .nil, hregister ▸ .nil _⟩

theorem append (h : Emits base s ids s₁) (h' : Emits base s₁ ids' s') :
    Emits base s (ids ++ ids') s' := by
  obtain ⟨hgrow, es, hdepicts, hfollows⟩ := h
  obtain ⟨hgrow', es', hdepicts', hfollows'⟩ := h'
  have hname : s₁.register.name? = s.register.name? := funext hfollows.name?
  rw [hname] at hdepicts'
  exact ⟨hgrow.trans hgrow', es ++ es', (hdepicts.evolves hgrow').append hdepicts',
    hfollows.append hfollows'⟩

/-- Silent steps before a step do not matter. -/
theorem after (h : Emits base s ids s₁) (hsilent : Emits base s' [] s) : Emits base s' ids s₁ :=
  hsilent.append h

/-- A plain statement at the end. -/
theorem plain (h : Emits base s ids s') (hplain : IsPlain base s'.tree id) :
    Emits base s (ids ++ [id]) s' :=
  h.append ⟨.refl _, [], .plain hplain .nil, .nil _⟩

/-- One statement that was made, and what it does to a binding. -/
theorem single {e : Event} (hgrow : s.tree.Evolves s'.tree)
    (hdepicts : Depicts base s'.tree s.register.name? [id] [e]) (hallowed : e.Allowed s.register)
    (hregister : s'.register = e.apply s.register) : Emits base s [id] s' :=
  ⟨hgrow, [e], hdepicts, hregister ▸ .single hallowed⟩

end Emits

theorem Makes.emits {s s' : State} (h : Makes s s') (base : Nat) : Emits base s [] s' :=
  .silent h.grows.evolves h.register

/-! ### Values -/

section

variable {base : Nat} {s : State} {e : Option NodeId}

theorem run_makeAwaited_value (isPromise : Bool) (hvalue : IsValue base s.tree e) :
    ∃ e' s', (makeAwaited isPromise e).run s = (e', s') ∧ Makes s s' ∧
      IsValue base s'.tree e' := by
  cases isPromise with
  | false => exact ⟨e, s, rfl, .refl s, hvalue⟩
  | true =>
      obtain ⟨s', hrun, hmakes, hnode⟩ := run_make (.unary .await e) {} s
      exact ⟨_, s', run_map some hrun, hmakes, isValue_of_data? hnode.data? (by simp)⟩

/-- The first write of a binding declares it, and by `const` if it is the only one that is left. The
writes after that assign. -/
theorem emits_writeBinding (key : Key) (hbase : base ≤ s.tree.size)
    (hvalue : IsValue base s.tree e) :
    ∃ id s', (writeBinding key e).run s = (id, s') ∧ Emits base s [id] s' := by
  cases hentry : s.register.get? key with
  | none =>
      obtain ⟨s', hrun, hmakes, hnode⟩ := run_make (.expressionStatement .statement e) {} s
      have hplain : IsPlain base s'.tree s.tree.size :=
        .inr (.inr ⟨e, hnode.data?, hvalue.evolves hmakes.grows.evolves⟩)
      refine ⟨_, s', ?_, (hmakes.emits base).plain hplain⟩
      refine (run_get_bind _ s).trans ?_
      simp only [hentry]
      exact hrun
  | some entry =>
      have hname : s.register.name? key = some entry.name := by rw [Register.name?, hentry]; rfl
      have hdeclared : s.register.isDeclared key = entry.isDeclared := by
        rw [Register.isDeclared, hentry]
        rfl
      cases hd : entry.isDeclared with
      | true =>
          obtain ⟨target, id, s₁, hrun, hmakes, hnode, hsize⟩ := run_makeAssignment entry.name e s
          refine ⟨id, { s₁ with register := (s₁.register.declare key).consume key }, ?_,
            .single (e := .assigns key) hmakes.grows.evolves
              (.assigns hname (Nat.le_trans hbase hsize) hnode .nil) (hdeclared.trans hd) ?_⟩
          · refine (run_get_bind _ s).trans ?_
            simp only [hentry, hd, if_pos]
            exact (run_bind hrun).trans rfl
          · rw [hmakes.register]
            rfl
      | false =>
          obtain ⟨id, s₁, hrun, hmakes, hnode, hsize⟩ :=
            run_makeVariable entry.name e (entry.writesLeft > 1) s
          have hallowed : Event.Allowed s.register (.declares key !(entry.writesLeft > 1)) := by
            refine ⟨by rw [hname]; rfl, hdeclared.trans hd, fun hconst => ?_⟩
            rw [Register.writesLeft, hentry]
            simpa using hconst
          -- The variable is asked for as `let`, the event says whether it is `const`.
          rw [← Bool.not_not (entry.writesLeft > 1)] at hnode
          refine ⟨id, { s₁ with register := (s₁.register.declare key).consume key }, ?_,
            .single hmakes.grows.evolves
              (.declares hname (Nat.le_trans hbase hsize) hnode .nil) hallowed ?_⟩
          · refine (run_get_bind _ s).trans ?_
            simp only [hentry, hd]
            exact (run_bind hrun).trans rfl
          · rw [hmakes.register]
            rfl

/-- Writing a value does to bindings what the register records. -/
theorem emits_write (c : Context) (sink : Sink) (isPromise : Bool) (hbase : base ≤ s.tree.size)
    (hvalue : IsValue base s.tree e) :
    ∃ ids s', (write c e sink isPromise).run s = (ids, s') ∧ Emits base s ids s' := by
  cases sink with
  | returned =>
      obtain ⟨e', s₁, hawait, hmakes₁, -⟩ :=
        run_makeAwaited_value (isPromise && c.inTry) hvalue
      obtain ⟨s₂, hreturn, hmakes₂, hnode⟩ := run_make (.leave .returns e') {} s₁
      refine ⟨_, s₂, (run_bind hawait).trans (run_bind hreturn), ?_⟩
      exact ((hmakes₁.trans hmakes₂).emits base).plain (.inr (.inl ⟨e', hnode.data?⟩))
  | binding key =>
      obtain ⟨e', s₁, hawait, hmakes₁, hvalue₁⟩ := run_makeAwaited_value isPromise hvalue
      obtain ⟨id, s₂, hwrite, hemits⟩ := emits_writeBinding key
        (Nat.le_trans hbase hmakes₁.grows.evolves.size_le) hvalue₁
      refine ⟨[id], s₂, (run_bind hawait).trans (run_bind hwrite), ?_⟩
      exact hemits.after (hmakes₁.emits base)
  | discarded =>
      have hstatement : ∃ ids s', (do
          return [← makeStatement (← makeAwaited isPromise e)] : Step (List NodeId)).run s =
            (ids, s') ∧ Emits base s ids s' := by
        obtain ⟨e', s₁, hawait, hmakes₁, hvalue₁⟩ := run_makeAwaited_value isPromise hvalue
        obtain ⟨s₂, hmake, hmakes₂, hnode⟩ := run_make (.expressionStatement .statement e') {} s₁
        refine ⟨_, s₂, (run_bind hawait).trans (run_bind hmake), ?_⟩
        refine ((hmakes₁.trans hmakes₂).emits base).plain ?_
        exact .inr (.inr ⟨e', hnode.data?, hvalue₁.evolves hmakes₂.grows.evolves⟩)
      cases isPromise with
      | true => exact hstatement
      | false =>
          cases hfree : s.tree.isSideEffectFree e with
          | true =>
              refine ⟨[], s, (run_get_bind _ s).trans ?_, .silent (.refl _) rfl⟩
              simp only [hfree]
              rfl
          | false =>
              obtain ⟨ids, s', hrun, hemits⟩ := hstatement
              refine ⟨ids, s', (run_get_bind _ s).trans ?_, hemits⟩
              simp only [hfree]
              exact hrun

theorem emits_writeUndefined (c : Context) (sink : Sink) (hbase : base ≤ s.tree.size) :
    ∃ ids s', (writeUndefined c sink).run s = (ids, s') ∧ Emits base s ids s' := by
  cases sink with
  | returned => exact ⟨[], s, rfl, .silent (.refl _) rfl⟩
  | discarded => exact ⟨[], s, rfl, .silent (.refl _) rfl⟩
  | binding key =>
      obtain ⟨s₁, hmake, hmakes, hnode⟩ := run_make (.identifier "undefined") {} s
      obtain ⟨ids, s', hwrite, hemits⟩ := emits_write c (.binding key) false
        (Nat.le_trans hbase hmakes.grows.evolves.size_le)
        (isValue_of_data? hnode.data? (by simp))
      exact ⟨ids, s', (run_bind hmake).trans hwrite, hemits.after (hmakes.emits base)⟩

theorem emits_hoist (sink : Sink) (hbase : base ≤ s.tree.size) :
    ∃ ids s', (hoist sink).run s = (ids, s') ∧ Emits base s ids s' := by
  cases sink with
  | returned => exact ⟨[], s, rfl, .silent (.refl _) rfl⟩
  | discarded => exact ⟨[], s, rfl, .silent (.refl _) rfl⟩
  | binding key =>
      cases hname : s.register.name? key with
      | none =>
          refine ⟨[], s, (run_get_bind _ s).trans ?_, .silent (.refl _) rfl⟩
          simp only [hname]
          rfl
      | some text =>
          cases hd : s.register.isDeclared key with
          | true =>
              refine ⟨[], s, (run_get_bind _ s).trans ?_, .silent (.refl _) rfl⟩
              simp only [hname, hd]
              rfl
          | false =>
              obtain ⟨id, s₁, hrun, hmakes, hnode, hsize⟩ := run_makeVariable text none true
                { s with register := s.register.declare key }
              refine ⟨[id], s₁, ?_, .single (e := .hoists key) hmakes.grows.evolves
                (.hoists hname (Nat.le_trans hbase hsize) hnode .nil) ⟨by rw [hname]; rfl, hd⟩
                hmakes.register⟩
              refine (run_get_bind _ s).trans ?_
              simp only [hname, hd]
              exact (run_modify_bind _ _ s).trans (run_bind hrun)

end

end Unroll

end Unchain
