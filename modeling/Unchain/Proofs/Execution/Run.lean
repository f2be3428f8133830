import Unchain.Proofs.Promise.Settle

/-!
# Running statements

The meaning of the statements that a conversion writes: variables, assignments,
returns, expressions as statements, and `try` with `catch`. What an expression of
the source means is said by its `Sense`: it is the leaf of a chain, the body of
one of its functions, or a chain that was kept as written. All other expressions
are calls of functions by name, and `await`.

A statement has no meaning where the language refuses it: a name is declared
once only, constants are not assigned, and names are declared before their use.
`Runs.unique` says that statements run in one way only.
-/

namespace Unchain.Execution

open Chain (Callback Form Layer)
open Promise (Event History Outcome World)
open Syntax (Data Flags Node NodeId NodeList Tree)

/-- What an expression of the source means. -/
inductive Sense where
  /-- The leaf of the chain. -/
  | leaf
  /-- The body of a function that is written in place. -/
  | body (callback : Callback)
  /-- The name of a function. -/
  | function
  /-- A chain of these layers. -/
  | chain (layers : List Layer)
  deriving DecidableEq, Repr

/-- The expressions of a function and what they mean. -/
def sensesOfCallback : Callback → List (NodeId × Sense)
  | .named name => [(name, .function)]
  | .arrow function body isAsync parameter =>
    [(body, .body (.arrow function body isAsync parameter))]

/-- The expressions of a link's function and what they mean. -/
def sensesOfForm : Form → List (NodeId × Sense)
  | .pass => []
  | .value callback | .reason callback => sensesOfCallback callback

/-- The expressions of a chain and what they mean. -/
def sensesOf (leaf : NodeId) : List Layer → List (NodeId × Sense)
  | [] => [(leaf, .leaf)]
  | layer :: layers =>
    (layer.link, .chain (layer :: layers)) :: sensesOfForm layer.form ++ sensesOf leaf layers

variable {V : Type}

/-- What a name stands for. -/
structure Cell (V : Type) where
  value : V
  isConst : Bool

/-- The names that are declared. -/
abbrev Env (V : Type) := String → Option (Cell V)

namespace Env

/-- Gives a name a value. -/
def set (env : Env V) (name : String) (cell : Cell V) : Env V :=
  fun other => if other = name then some cell else env other

/-- What is left of the names after a block that was entered with the names `outer`. -/
def leave (outer inner : Env V) : Env V :=
  fun name => if (outer name).isSome then inner name else none

@[simp] theorem set_self (env : Env V) (name : String) (cell : Cell V) :
    env.set name cell name = some cell := if_pos rfl

theorem set_of_ne (env : Env V) {name other : String} (cell : Cell V) (h : other ≠ name) :
    env.set name cell other = env other := if_neg h

theorem leave_of_some {outer : Env V} (inner : Env V) {name : String} {cell : Cell V}
    (h : outer name = some cell) : outer.leave inner name = inner name := by
  rw [leave, h]
  rfl

theorem leave_of_none {outer : Env V} (inner : Env V) {name : String}
    (h : outer name = none) : outer.leave inner name = none := by
  rw [leave, h]
  rfl

theorem leave_of_eq {outer inner : Env V} {name : String} (h : inner name = outer name) :
    outer.leave inner name = outer name := by
  cases ho : outer name with
  | none => exact leave_of_none inner ho
  | some cell => rw [leave_of_some inner ho, h, ho]

/-- A block that changes none of the names around it leaves them as they were. -/
theorem leave_eq_self {outer inner : Env V}
    (h : ∀ name, (outer name).isSome → inner name = outer name) : outer.leave inner = outer := by
  funext name
  cases ho : outer name with
  | none => exact leave_of_none inner ho
  | some cell => rw [leave_of_some inner ho, h name (by rw [ho]; rfl), ho]

end Env

/-- How statements end. -/
inductive Completion (V : Type) where
  | normal
  | returned (v : V)
  | thrown (reason : V)

/-- A moment of a run: the names, the history, and how the statements so far ended. -/
structure Moment (V : Type) where
  env : Env V
  past : History V
  completion : Completion V := .normal

namespace Moment

/-- The moment after an expression whose value nobody needs. -/
def drop (k : Moment V) : Outcome V × History V → Moment V
  | (.ok _, past) => { k with past }
  | (.error x, past) => { k with past, completion := .thrown x }

/-- The moment after a return. -/
def exit (k : Moment V) : Outcome V × History V → Moment V
  | (.ok v, past) => { k with past, completion := .returned v }
  | (.error x, past) => { k with past, completion := .thrown x }

/-- The moment after a name got a value. -/
def bind (k : Moment V) (name : String) (isConst : Bool) : Outcome V × History V → Moment V
  | (.ok v, past) => { k with past, env := k.env.set name ⟨v, isConst⟩ }
  | (.error x, past) => { k with past, completion := .thrown x }

/-- The moment at which the reason `x` is caught. -/
def handle (k : Moment V) (name : String) (x : V) : Moment V :=
  { k with env := k.env.set name ⟨x, false⟩, completion := .normal }

/-- The moment after a block that was entered with the names `outer`. -/
def leave (k : Moment V) (outer : Env V) : Moment V := { k with env := outer.leave k.env }

end Moment

/-- What is needed to run statements: what evaluations give, the tree in which the statements
stand, and what the expressions of the source mean. -/
structure Machine (V : Type) where
  world : World V
  tree : Tree
  senses : List (NodeId × Sense)

namespace Machine

variable (m : Machine V)

/-! ### Expressions -/

/-- What a name stands for. -/
def name? (env : Env V) (text : Option String) : Option V :=
  text.bind fun text => (env text).map Cell.value

/-- The argument of a call. -/
def argument? (env : Env V) : List NodeId → Option (Option V)
  | [] => some none
  | [argument] => (name? env (m.tree.identifierText? (some argument))).map some
  | _ => none

/-- The argument that the body of a function reads: what the name of its parameter stands for. -/
def parameter? (env : Env V) : Callback → Option (Option V)
  | .named _ => none
  | .arrow _ _ _ none => some none
  | .arrow function _ _ (some _) =>
    (name? env (Promise.functionParameter? m.tree function)).map some

/-- What an expression without `await` gives. -/
def atom? (env : Env V) (past : History V) (e : NodeId) : Option (Outcome V × History V) :=
  match m.senses.lookup e with
  | some .leaf => some (m.world.perform false .leaf past)
  | some (.body callback) =>
    (m.parameter? env callback).map fun argument =>
      m.world.perform (callback.isSilent m.tree) (.call callback.node argument) past
  | some (.chain layers) => some (Chain.evaluate m.tree m.world layers past)
  | some .function => none
  | none =>
    match m.tree.data? e with
    | some (.call .call (some callee) none (some arguments)) =>
      if m.senses.lookup callee = some .function then
        (m.argument? env arguments.nodes).map fun argument =>
          m.world.perform false (.call callee argument) past
      else none
    | _ => none

/-- What an expression gives. -/
def value? (env : Env V) (past : History V) (e : NodeId) : Option (Outcome V × History V) :=
  match m.senses.lookup e, m.tree.data? e with
  | none, some (.unary .await (some awaited)) =>
    (m.atom? env past awaited).map fun (r, past) => (m.world.await r, past)
  | _, _ => m.atom? env past e

/-! ### Statements -/

/-- Declares a variable. Its name must be new. -/
def declare? (k : Moment V) (flags : Flags) (declarator : NodeId) : Option (Moment V) :=
  match m.tree.data? declarator with
  | some (.variableDeclaration name false none value) => do
    let text ← m.tree.identifierText? name
    if (k.env text).isSome ∨ flags.isLet = flags.isConst then none
    else
      match value with
      | some e => (m.value? k.env k.past e).map (k.bind text flags.isConst)
      | none =>
        if flags.isConst then none
        else some (k.bind text false (.ok m.world.undefined, k.past))
  | _ => none

/-- Assigns a variable, which must not be a constant. -/
def assign? (k : Moment V) (target e : NodeId) : Option (Moment V) := do
  let text ← m.tree.identifierText? (some target)
  let cell ← k.env text
  if cell.isConst then none else (m.value? k.env k.past e).map (k.bind text false)

/-- The target and the value of an assignment. -/
def assignment? (e : NodeId) : Option (NodeId × NodeId) :=
  match m.senses.lookup e, m.tree.data? e with
  | none, some (.binary (some target) .equals (some value)) => some (target, value)
  | _, _ => none

/-- Runs a statement other than `try`. -/
def step? (k : Moment V) (id : NodeId) : Option (Moment V) := do
  let node ← m.tree.node? id
  match node.data with
  | .variableList .statement none ⟨[declarator], _, _, _⟩ => m.declare? k node.flags declarator
  | .expressionStatement .statement (some e) =>
    match m.assignment? e with
    | some (target, value) => m.assign? k target value
    | none => (m.value? k.env k.past e).map k.drop
  | .leave .returns (some e) => (m.value? k.env k.past e).map k.exit
  | _ => none

/-- The machine for another tree. -/
def on (t : Tree) : Machine V := { m with tree := t }

end Machine

/-- What a `try` with a `catch` consists of: its statements, the name of the reason, and the
statements that handle it. -/
def tryParts? (t : Tree) (id : NodeId) : Option (List NodeId × String × List NodeId) := do
  let .tryStatement (some block) (some clause) none ← t.data? id | none
  let tried ← t.statements? block
  let .catchClause (some binding) (some handler) ← t.data? clause | none
  let .variableDeclaration name false none none ← t.data? binding | none
  let text ← t.identifierText? name
  let handled ← t.statements? handler
  return (tried.nodes, text, handled.nodes)

/-- `Runs m k ids k'`: the statements `ids` lead from the moment `k` to the moment `k'`. Statements
after one that returns or throws do not run. -/
inductive Runs (m : Machine V) : Moment V → List NodeId → Moment V → Prop where
  | nil (k : Moment V) : Runs m k [] k
  | skip {k : Moment V} {id : NodeId} {rest : List NodeId} (h : k.completion ≠ .normal) :
      Runs m k (id :: rest) k
  | simple {k k₁ k₂ : Moment V} {id : NodeId} {rest : List NodeId}
      (h : k.completion = .normal) (hstep : m.step? k id = some k₁) (hrest : Runs m k₁ rest k₂) :
      Runs m k (id :: rest) k₂
  /-- The statements of a `try` do not throw. -/
  | tried {k k₁ k₂ : Moment V} {id : NodeId} {rest tried handled : List NodeId} {text : String}
      (h : k.completion = .normal) (hparts : tryParts? m.tree id = some (tried, text, handled))
      (htried : Runs m k tried k₁) (hthrown : ∀ x, k₁.completion ≠ .thrown x)
      (hrest : Runs m (k₁.leave k.env) rest k₂) : Runs m k (id :: rest) k₂
  /-- The statements of a `try` throw. -/
  | caught {k k₁ k₂ k₃ : Moment V} {id : NodeId} {rest tried handled : List NodeId}
      {text : String} {x : V}
      (h : k.completion = .normal) (hparts : tryParts? m.tree id = some (tried, text, handled))
      (htried : Runs m k tried k₁) (hthrown : k₁.completion = .thrown x)
      (hnew : k.env text = none)
      (hhandled : Runs m ((k₁.leave k.env).handle text x) handled k₂)
      (hrest : Runs m (k₂.leave k.env) rest k₃) : Runs m k (id :: rest) k₃

namespace Runs

variable {m : Machine V}

/-- Nothing runs after a return or a throw. -/
theorem of_abrupt {k : Moment V} (h : k.completion ≠ .normal) (ids : List NodeId) :
    Runs m k ids k := by
  cases ids with
  | nil => exact .nil k
  | cons id rest => exact .skip h

theorem eq_of_abrupt {k k' : Moment V} {ids : List NodeId} (h : Runs m k ids k')
    (hk : k.completion ≠ .normal) : k' = k := by
  cases h with
  | nil | skip => rfl
  | simple h | tried h | caught h => exact absurd h hk

/-- One list of statements runs after another. -/
theorem append {k k₁ k₂ : Moment V} {ids rest : List NodeId} (h : Runs m k ids k₁)
    (hrest : Runs m k₁ rest k₂) : Runs m k (ids ++ rest) k₂ := by
  induction h with
  | nil k => exact hrest
  | skip h =>
      obtain rfl := hrest.eq_of_abrupt h
      exact .skip h
  | simple h hstep _ ih => exact .simple h hstep (ih hrest)
  | tried h hparts htried hthrown _ _ ih => exact .tried h hparts htried hthrown (ih hrest)
  | caught h hparts htried hthrown hnew hhandled _ _ _ ih =>
      exact .caught h hparts htried hthrown hnew hhandled (ih hrest)

theorem data?_of_tryParts? {t : Tree} {id : NodeId} {parts : List NodeId × String × List NodeId}
    (h : tryParts? t id = some parts) :
    ∃ block clause last, t.data? id = some (.tryStatement block clause last) := by
  unfold tryParts? at h
  cases hd : t.data? id with
  | none =>
      rw [hd] at h
      exact nomatch h
  | some d =>
      rw [hd] at h
      cases d with
      | tryStatement block clause last => exact ⟨block, clause, last, rfl⟩
      | _ => exact nomatch h

/-- A `try` is no other statement. -/
theorem step?_of_tryParts? {k : Moment V} {id : NodeId}
    {parts : List NodeId × String × List NodeId} (h : tryParts? m.tree id = some parts) :
    m.step? k id = none := by
  obtain ⟨block, clause, last, hd⟩ := data?_of_tryParts? h
  obtain ⟨node, hnode, hdata⟩ := Option.map_eq_some_iff.mp hd
  rw [Machine.step?, hnode, Option.bind_eq_bind, Option.bind_some, hdata]

/-- Statements run in one way only. -/
theorem unique {k k₁ k₂ : Moment V} {ids : List NodeId} (h₁ : Runs m k ids k₁)
    (h₂ : Runs m k ids k₂) : k₁ = k₂ := by
  -- A statement is a `try` or has a step, and what it completes with is the same by induction.
  induction h₁ generalizing k₂ with
  | nil k =>
      cases h₂
      rfl
  | skip h => exact (h₂.eq_of_abrupt h).symm
  | simple h hstep _ ih =>
      cases h₂ with
      | skip h' => exact absurd h h'
      | simple _ hstep' hrest' =>
          cases hstep.symm.trans hstep'
          exact ih hrest'
      | tried _ hparts' | caught _ hparts' =>
          rw [step?_of_tryParts? hparts'] at hstep
          cases hstep
  | tried h hparts _ hthrown _ ihTried ihRest =>
      cases h₂ with
      | skip h' => exact absurd h h'
      | simple _ hstep' =>
          rw [step?_of_tryParts? hparts] at hstep'
          cases hstep'
      | tried _ hparts' htried' _ hrest' =>
          cases hparts.symm.trans hparts'
          cases ihTried htried'
          exact ihRest hrest'
      | caught _ hparts' htried' hthrown' =>
          cases hparts.symm.trans hparts'
          cases ihTried htried'
          exact absurd hthrown' (hthrown _)
  | caught h hparts _ hthrown _ _ _ ihTried ihHandled ihRest =>
      cases h₂ with
      | skip h' => exact absurd h h'
      | simple _ hstep' =>
          rw [step?_of_tryParts? hparts] at hstep'
          cases hstep'
      | tried _ hparts' htried' hthrown' =>
          cases hparts.symm.trans hparts'
          cases ihTried htried'
          exact absurd hthrown (hthrown' _)
      | caught _ hparts' htried' hthrown' _ hhandled' hrest' =>
          cases hparts.symm.trans hparts'
          cases ihTried htried'
          cases hthrown.symm.trans hthrown'
          cases ihHandled hhandled'
          exact ihRest hrest'

end Runs

end Unchain.Execution
