import Unchain.Proofs.Syntax.Growth
import Unchain.Unroll.Link

/-!
# What steps do

Steps in sequence, and what making a node does to the state of a conversion: the
tree grows by it, and names, successors and patches stay as they are.
-/

namespace Unchain

open Naming (Entry Key Register)
open Syntax (Data Flags Node NodeId NodeList Tree)

namespace Naming.Register

theorem name?_eq_none {r : Register} {key : Key} (h : r.get? key = none) : r.name? key = none := by
  rw [name?, h]
  rfl

theorem name?_modify (r : Register) (key other : Key) {f : Entry → Entry}
    (hf : ∀ e, (f e).name = e.name) : (r.modify key f).name? other = r.name? other := by
  rw [name?, name?, get?_modify]
  split
  · next h =>
    subst h
    cases r.get? other with
    | none => rfl
    | some e => simp [hf]
  · rfl

@[simp] theorem name?_declare (r : Register) (key other : Key) :
    (r.declare key).name? other = r.name? other := name?_modify r key other fun _ => rfl

@[simp] theorem name?_consume (r : Register) (key other : Key) :
    (r.consume key).name? other = r.name? other := name?_modify r key other fun _ => rfl

theorem isDeclared_declare_self {r : Register} {key : Key} {name : String}
    (h : r.name? key = some name) : (r.declare key).isDeclared key = true := by
  obtain ⟨e, he, -⟩ := Option.map_eq_some_iff.mp h
  simp [isDeclared, declare, get?_modify, he]

theorem isDeclared_declare_of_ne (r : Register) {key other : Key} (h : other ≠ key) :
    (r.declare key).isDeclared other = r.isDeclared other := by
  simp [isDeclared, declare, get?_modify, h]

@[simp] theorem isDeclared_consume (r : Register) (key other : Key) :
    (r.consume key).isDeclared other = r.isDeclared other := by
  rw [isDeclared, isDeclared, consume, get?_modify]
  split
  · next h =>
    subst h
    cases r.get? other <;> rfl
  · rfl

end Naming.Register

namespace Unroll

variable {α β : Type}

/-! ### Sequences -/

theorem run_bind {x : Step α} {f : α → Step β} {s s' : State} {a : α}
    (h : x.run s = (a, s')) : (x >>= f).run s = (f a).run s' := by
  rw [StateT.run_bind, h]
  rfl

/-- A step ends with what it gives, in the state that it leaves. -/
theorem run_eq_of_fst {x : Step α} {s : State} {a : α} (h : (x.run s).1 = a) :
    x.run s = (a, (x.run s).2) :=
  Prod.ext h rfl

theorem run_get_bind (f : State → Step β) (s : State) :
    (get >>= f).run s = (f s).run s := rfl

theorem run_modify_bind (g : State → State) (f : PUnit → Step β) (s : State) :
    (modify g >>= f).run s = (f ⟨⟩).run (g s) := rfl

theorem run_map {x : Step α} (f : α → β) {s s' : State} {a : α} (h : x.run s = (a, s')) :
    (f <$> x).run s = (f a, s') := by
  rw [StateT.run_map, h]
  rfl


theorem attempt_bind {x : Attempt α} {f : α → Attempt β} {s s' : State} {a : α}
    (h : x.run.run s = (some a, s')) : (x >>= f).run.run s = (f a).run.run s' := by
  simp only [OptionT.run_bind, Option.elimM, StateT.run_bind, h]
  rfl

theorem attempt_bind_none {x : Attempt α} {f : α → Attempt β} {s s' : State}
    (h : x.run.run s = (none, s')) : (x >>= f).run.run s = (none, s') := by
  simp only [OptionT.run_bind, Option.elimM, StateT.run_bind, h]
  rfl

/-- What a sequence gives, its parts give one after another. -/
theorem of_attempt_bind {x : Attempt α} {f : α → Attempt β} {s s' : State} {b : β}
    (h : (x >>= f).run.run s = (some b, s')) :
    ∃ a s₁, x.run.run s = (some a, s₁) ∧ (f a).run.run s₁ = (some b, s') := by
  cases hx : x.run.run s with
  | mk a s₁ =>
      cases a with
      | none =>
          rw [attempt_bind_none hx] at h
          cases h
      | some a => exact ⟨a, s₁, rfl, (attempt_bind hx).symm.trans h⟩

theorem attempt_lift {x : Step α} {s s' : State} {a : α} (h : x.run s = (a, s')) :
    (liftM x : Attempt α).run.run s = (some a, s') := by
  have hrun : (liftM x : Attempt α).run.run s = (some (x.run s).1, (x.run s).2) := rfl
  rw [hrun, h]

theorem of_attempt_lift {x : Step α} {s s' : State} {a : α}
    (h : (liftM x : Attempt α).run.run s = (some a, s')) : x.run s = (a, s') := by
  have hrun : (liftM x : Attempt α).run.run s = (some (x.run s).1, (x.run s).2) := rfl
  rw [hrun] at h
  cases h
  rfl

theorem attempt_get_bind (f : State → Attempt β) (s : State) :
    (get >>= f).run.run s = (f s).run.run s := rfl

theorem attempt_pure (a : α) (s : State) : (pure a : Attempt α).run.run s = (some a, s) := rfl

theorem attempt_orFail (a : Option α) (s : State) : (orFail a).run.run s = (a, s) := rfl

/-! ### Sinks of receivers -/

/-- The sink of a receiver whose value is an argument. -/
def argumentSink (argument : Option Key) : Sink := (argument.map .binding).getD .discarded

/-! ### Making nodes -/

/-- A state that comes from another one by making nodes and by changes to names. -/
structure Adds (s s' : State) : Prop where
  grows : s.tree.Grows s'.tree
  successors : s'.successors = s.successors
  patched : s'.patched = s.patched

namespace Adds

theorem refl (s : State) : Adds s s := ⟨.refl _, rfl, rfl⟩

theorem trans {a b c : State} (h : Adds a b) (h' : Adds b c) : Adds a c :=
  ⟨h.grows.trans h'.grows, h'.successors.trans h.successors, h'.patched.trans h.patched⟩

end Adds

/-- A state that comes from another one by making nodes. -/
structure Makes (s s' : State) : Prop extends Adds s s' where
  register : s'.register = s.register

namespace Makes

theorem refl (s : State) : Makes s s := ⟨.refl s, rfl⟩

theorem trans {a b c : State} (h : Makes a b) (h' : Makes b c) : Makes a c :=
  ⟨h.toAdds.trans h'.toAdds, h'.register.trans h.register⟩

end Makes

/-- The node `id` holds `data` and has these marks. -/
def HasNode (t : Tree) (id : NodeId) (data : Data) (flags : Flags) : Prop :=
  ∃ n, t.node? id = some n ∧ n.data = data ∧ n.flags = flags

namespace HasNode

variable {t t' : Tree} {id : NodeId} {data : Data} {flags : Flags}

theorem data? (h : HasNode t id data flags) : t.data? id = some data := by
  obtain ⟨n, hn, rfl, -⟩ := h
  exact Tree.data?_of_node? hn

theorem evolves (h : HasNode t id data flags) (hreturn : ∀ e, data ≠ .leave .returns (some e))
    (hgrow : t.Evolves t') : HasNode t' id data flags := by
  obtain ⟨n, hn, rfl, rfl⟩ := h
  obtain ⟨n', hn', hshape, hflags, -⟩ := hgrow.node hn
  exact ⟨n', hn', Data.eq_of_shape_eq hshape hreturn, hflags⟩

end HasNode

/-- Making a node adds it to the tree. -/
theorem run_make (data : Data) (flags : Flags) (s : State) :
    ∃ s', (make data flags).run s = (s.tree.size, s') ∧ Makes s s' ∧
      HasNode s'.tree s.tree.size data flags := by
  refine ⟨{ s with tree := (s.tree.add data 0 0 flags).2 }, rfl, ⟨⟨.add .., rfl, rfl⟩, rfl⟩, ?_⟩
  obtain ⟨p, hp⟩ := Tree.Grows.node?_add_self s.tree data 0 0 flags
  exact ⟨_, hp, rfl, rfl⟩

/-- The node `id` is `await e` for a promise, and `e` itself for another value. -/
def IsAwaited (t : Tree) (isPromise : Bool) (e id : NodeId) : Prop :=
  if isPromise then t.data? id = some (.unary .await (some e)) else id = e

theorem IsAwaited.grows {t t' : Tree} {isPromise : Bool} {e id : NodeId}
    (h : IsAwaited t isPromise e id) (hgrow : t.Grows t') : IsAwaited t' isPromise e id := by
  unfold IsAwaited at h ⊢
  split at h
  · next hp => rw [if_pos hp]; exact hgrow.data? h
  · next hp => rw [if_neg hp]; exact h

theorem run_makeAwaited (isPromise : Bool) (e : NodeId) (s : State) :
    ∃ id s', (makeAwaited isPromise (some e)).run s = (some id, s') ∧ Makes s s' ∧
      IsAwaited s'.tree isPromise e id ∧ (isPromise = true → s.tree.size ≤ id) := by
  cases isPromise with
  | false => exact ⟨e, s, rfl, .refl s, rfl, nofun⟩
  | true =>
      obtain ⟨s', hrun, hmakes, hnode⟩ := run_make (.unary .await (some e)) {} s
      exact ⟨_, s', run_map some hrun, hmakes, hnode.data?, fun _ => Nat.le_refl _⟩

/-- The nodes of the declarator `name = value`. -/
def IsDeclarator (t : Tree) (name : String) (value : Option NodeId) (id : NodeId) : Prop :=
  ∃ target, t.data? id = some (.variableDeclaration (some target) false none value) ∧
    t.data? target = some (.identifier name)

theorem IsDeclarator.evolves {t t' : Tree} {name : String} {value : Option NodeId} {id : NodeId}
    (h : IsDeclarator t name value id) (hgrow : t.Evolves t') : IsDeclarator t' name value id := by
  obtain ⟨target, hd, ht⟩ := h
  exact ⟨target, hgrow.data? hd (by simp), hgrow.data? ht (by simp)⟩

theorem run_makeDeclarator (name : String) (value : Option NodeId) (s : State) :
    ∃ id s', (makeDeclarator name value).run s = (id, s') ∧ Makes s s' ∧
      IsDeclarator s'.tree name value id := by
  obtain ⟨s₁, hname, hmakes₁, hnode₁⟩ := run_make (.identifier name) {} s
  obtain ⟨s₂, hdecl, hmakes₂, hnode₂⟩ :=
    run_make (.variableDeclaration (some s.tree.size) false none value) {} s₁
  refine ⟨_, s₂, (run_bind hname).trans hdecl, hmakes₁.trans hmakes₂, ?_⟩
  exact ⟨_, hnode₂.data?, hmakes₂.grows.data? hnode₁.data?⟩

/-- The nodes of the statement `let name = value;` or `const name = value;`. -/
def IsVariable (t : Tree) (name : String) (value : Option NodeId) (isLet : Bool)
    (id : NodeId) : Prop :=
  ∃ declarator, HasNode t id (.variableList .statement none { nodes := [declarator] })
      { isLet, isConst := !isLet, synthesized := true } ∧
    IsDeclarator t name value declarator

theorem IsVariable.evolves {t t' : Tree} {name : String} {value : Option NodeId} {isLet : Bool}
    {id : NodeId} (h : IsVariable t name value isLet id) (hgrow : t.Evolves t') :
    IsVariable t' name value isLet id := by
  obtain ⟨declarator, hlist, hdecl⟩ := h
  exact ⟨declarator, hlist.evolves (by simp) hgrow, hdecl.evolves hgrow⟩

theorem IsVariable.grows {t t' : Tree} {name : String} {value : Option NodeId} {isLet : Bool}
    {id : NodeId} (h : IsVariable t name value isLet id) (hgrow : t.Grows t') :
    IsVariable t' name value isLet id :=
  h.evolves hgrow.evolves

theorem run_makeVariable (name : String) (value : Option NodeId) (isLet : Bool) (s : State) :
    ∃ id s', (makeVariable name value isLet).run s = (id, s') ∧ Makes s s' ∧
      IsVariable s'.tree name value isLet id ∧ s.tree.size ≤ id := by
  obtain ⟨declarator, s₁, hdecl, hmakes₁, hnode₁⟩ := run_makeDeclarator name value s
  obtain ⟨s₂, hlist, hmakes₂, hnode₂⟩ :=
    run_make (.variableList .statement none { nodes := [declarator] })
      { isLet, isConst := !isLet, synthesized := true } s₁
  refine ⟨_, s₂, (run_bind hdecl).trans hlist, hmakes₁.trans hmakes₂, ⟨declarator, hnode₂, ?_⟩,
    hmakes₁.grows.evolves.size_le⟩
  exact hnode₁.evolves hmakes₂.grows.evolves

/-- The nodes of the statement `name = value;`. -/
def IsAssignment (t : Tree) (name : String) (value : Option NodeId) (e id : NodeId) : Prop :=
  ∃ target, t.data? id = some (.expressionStatement .statement (some e)) ∧
    t.data? e = some (.binary (some target) .equals value) ∧
      t.data? target = some (.identifier name)

theorem IsAssignment.evolves {t t' : Tree} {name : String} {value : Option NodeId} {e id : NodeId}
    (h : IsAssignment t name value e id) (hgrow : t.Evolves t') :
    IsAssignment t' name value e id := by
  obtain ⟨target, hid, he, htarget⟩ := h
  exact ⟨target, hgrow.data? hid (by simp), hgrow.data? he (by simp),
    hgrow.data? htarget (by simp)⟩

theorem IsAssignment.grows {t t' : Tree} {name : String} {value : Option NodeId} {e id : NodeId}
    (h : IsAssignment t name value e id) (hgrow : t.Grows t') : IsAssignment t' name value e id :=
  h.evolves hgrow.evolves

theorem run_makeAssignment (name : String) (value : Option NodeId) (s : State) :
    ∃ e id s', (makeAssignment name value).run s = (id, s') ∧ Makes s s' ∧
      IsAssignment s'.tree name value e id ∧ s.tree.size ≤ e := by
  obtain ⟨s₁, hname, hmakes₁, hnode₁⟩ := run_make (.identifier name) {} s
  obtain ⟨s₂, hbin, hmakes₂, hnode₂⟩ :=
    run_make (.binary (some s.tree.size) .equals value) {} s₁
  obtain ⟨s₃, hstmt, hmakes₃, hnode₃⟩ :=
    run_make (.expressionStatement .statement (some s₁.tree.size)) {} s₂
  refine ⟨s₁.tree.size, _, s₃, (run_bind hname).trans ((run_bind hbin).trans hstmt),
    hmakes₁.trans (hmakes₂.trans hmakes₃), ?_, hmakes₁.grows.evolves.size_le⟩
  exact ⟨_, hnode₃.data?, hmakes₃.grows.data? hnode₂.data?,
    hmakes₃.grows.data? (hmakes₂.grows.data? hnode₁.data?)⟩

/-- The nodes of the declarator in `catch (text)`; the reason may be without a name. -/
def IsReason (t : Tree) (text : Option String) (binding : Option NodeId) : Prop :=
  match text with
  | none => binding = none
  | some text => ∃ declarator, binding = some declarator ∧ IsDeclarator t text none declarator

theorem IsReason.evolves {t t' : Tree} {text : Option String} {binding : Option NodeId}
    (h : IsReason t text binding) (hgrow : t.Evolves t') : IsReason t' text binding := by
  cases text with
  | none => exact h
  | some text =>
      obtain ⟨declarator, hsome, hnode⟩ := h
      exact ⟨declarator, hsome, hnode.evolves hgrow⟩

/-- The nodes of the statement `try { tried } catch (text) { handled }`. -/
def IsTry (t : Tree) (tried : List NodeId) (text : Option String) (handled : List NodeId)
    (id : NodeId) : Prop :=
  ∃ block clause binding body,
    t.data? id = some (.tryStatement (some block) (some clause) none) ∧
    t.data? block = some (.block .block { nodes := tried } true) ∧
    t.data? clause = some (.catchClause binding (some body)) ∧
    t.data? body = some (.block .block { nodes := handled } true) ∧ IsReason t text binding

theorem IsTry.evolves {t t' : Tree} {tried handled : List NodeId} {text : Option String}
    {id : NodeId} (h : IsTry t tried text handled id) (hgrow : t.Evolves t') :
    IsTry t' tried text handled id := by
  obtain ⟨block, clause, binding, body, hid, hblock, hclause, hbody, hreason⟩ := h
  exact ⟨block, clause, binding, body, hgrow.data? hid (by simp), hgrow.data? hblock (by simp),
    hgrow.data? hclause (by simp), hgrow.data? hbody (by simp), hreason.evolves hgrow⟩

theorem run_makeTry (tried handled : List NodeId) (reason : Key) (s : State) :
    ∃ id s', (makeTry tried handled reason).run s = (id, s') ∧ Adds s s' ∧
      s'.register = s.register.declare reason ∧
      IsTry s'.tree tried (s.register.name? reason) handled id ∧ s.tree.size ≤ id := by
  obtain ⟨s₁, hblock, hmakes₁, hnode₁⟩ :=
    run_make (.block .block { nodes := tried } true) {} s
  rw [← hmakes₁.register]
  let declared : State := { s₁ with register := s₁.register.declare reason }
  -- The statement is built around the reason in the same way if it has no name.
  have hrest : ∀ (binding : Option NodeId) (s₂ : State), Makes declared s₂ →
      IsReason s₂.tree (s₁.register.name? reason) binding →
      ∃ id s', (do
          let handler ← makeBlock handled
          let clause ← make (.catchClause binding (some handler))
          make (.tryStatement (some s.tree.size) (some clause) none) : Step NodeId).run s₂ =
            (id, s') ∧ Makes declared s' ∧
        IsTry s'.tree tried (s₁.register.name? reason) handled id ∧ s.tree.size ≤ id := by
    intro binding s₂ hmakes₂ hreason
    obtain ⟨s₃, hhandler, hmakes₃, hnode₃⟩ :=
      run_make (.block .block { nodes := handled } true) {} s₂
    obtain ⟨s₄, hclause, hmakes₄, hnode₄⟩ :=
      run_make (.catchClause binding (some s₂.tree.size)) {} s₃
    obtain ⟨s₅, htry, hmakes₅, hnode₅⟩ :=
      run_make (.tryStatement (some s.tree.size) (some s₃.tree.size) none) {} s₄
    have hmakes₄₅ := hmakes₄.trans hmakes₅
    have hmakes := hmakes₂.trans (hmakes₃.trans hmakes₄₅)
    have hsize : s.tree.size ≤ s₄.tree.size :=
      Nat.le_trans hmakes₁.grows.evolves.size_le
        (hmakes₂.trans (hmakes₃.trans hmakes₄)).grows.evolves.size_le
    refine ⟨s₄.tree.size, s₅, (run_bind hhandler).trans ((run_bind hclause).trans htry), hmakes, ?_,
      hsize⟩
    exact ⟨_, _, binding, _, hnode₅.data?, hmakes.grows.data? hnode₁.data?,
      hmakes₅.grows.data? hnode₄.data?, hmakes₄₅.grows.data? hnode₃.data?,
      hreason.evolves (hmakes₃.trans hmakes₄₅).grows.evolves⟩
  have hrun : (makeTry tried handled reason).run s = _ :=
    (run_bind hblock).trans ((run_get_bind _ s₁).trans (run_modify_bind _ _ s₁))
  suffices h : ∃ id s', (makeTry tried handled reason).run s = (id, s') ∧ Makes declared s' ∧
      IsTry s'.tree tried (s₁.register.name? reason) handled id ∧ s.tree.size ≤ id by
    obtain ⟨id, s', h, hmakes, htry⟩ := h
    exact ⟨id, s', h, hmakes₁.toAdds.trans ⟨hmakes.grows, hmakes.successors, hmakes.patched⟩,
      hmakes.register, htry⟩
  rw [hrun]
  cases hname : s₁.register.name? reason with
  | none =>
      rw [hname] at hrest
      exact hrest none declared (.refl _) rfl
  | some text =>
      rw [hname] at hrest
      obtain ⟨binding, s₂, hbinding, hmakes₂, hnode₂⟩ := run_makeDeclarator text none declared
      obtain ⟨id, s', hrest, hmakes⟩ := hrest (some binding) s₂ hmakes₂ ⟨binding, rfl, hnode₂⟩
      exact ⟨id, s', (run_bind (run_map some hbinding)).trans hrest, hmakes⟩

end Unroll

end Unchain
