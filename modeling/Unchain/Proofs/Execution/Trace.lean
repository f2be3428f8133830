import Unchain.Proofs.Execution.Run

/-!
# Executing statements of any kind

`Runs` gives a meaning to the statements that are written for chains of plain functions. The body
of a handler can hold statements of any kind, so `Executes` takes the meaning of all statements
from a `Meaning`, `try` with `catch` aside. It lists the statements that are begun, which tells
which branches of a `try` are entered.

`executes_append` and `executes_try` say how lists of statements and `try` statements execute;
`Runs.executes` says that `Runs` is the special case of a `Machine`.
-/

namespace Unchain.Execution

open Syntax (NodeId Tree)

/-! ### The parts of a `try` -/

/-- What a `try` with a `catch` consists of. -/
structure TryParts where
  tried : List NodeId
  /-- What the reason is called, if the `catch` names it. -/
  reason : Option String
  handled : List NodeId

/-- What a `catch` calls the reason. A pattern is no name. -/
def reason? (t : Tree) : Option NodeId → Option (Option String)
  | none => some none
  | some binding =>
    match t.data? binding with
    | some (.variableDeclaration name false none none) => (t.identifierText? name).map some
    | _ => none

/-- The parts of a `try` with a `catch`, for a reason with or without a name. -/
def catchParts? (t : Tree) (id : NodeId) : Option TryParts := do
  let .tryStatement (some block) (some clause) none ← t.data? id | none
  let tried ← t.statements? block
  let .catchClause binding (some handler) ← t.data? clause | none
  let reason ← reason? t binding
  let handled ← t.statements? handler
  return ⟨tried.nodes, reason, handled.nodes⟩

/-- The parts of a `try` whose reason has a name. -/
theorem catchParts?_of_tryParts? {t : Tree} {id : NodeId} {tried handled : List NodeId}
    {text : String} (h : tryParts? t id = some (tried, text, handled)) :
    catchParts? t id = some ⟨tried, some text, handled⟩ := by
  obtain ⟨data, hid, h⟩ := Option.bind_eq_some_iff.mp h
  split at h
  · obtain ⟨list, hlist, h⟩ := Option.bind_eq_some_iff.mp h
    obtain ⟨clause, hclause, h⟩ := Option.bind_eq_some_iff.mp h
    split at h
    · obtain ⟨declarator, hdeclarator, h⟩ := Option.bind_eq_some_iff.mp h
      split at h
      · obtain ⟨name, hname, h⟩ := Option.bind_eq_some_iff.mp h
        obtain ⟨list', hlist', h⟩ := Option.bind_eq_some_iff.mp h
        cases h
        simp [catchParts?, hid, hlist, hclause, reason?, hdeclarator, hname, hlist']
      · cases h
    · cases h
  · cases h

/-- Only a `try` has parts. -/
theorem data?_of_catchParts? {t : Tree} {id : NodeId} {parts : TryParts}
    (h : catchParts? t id = some parts) :
    ∃ block clause, t.data? id = some (.tryStatement (some block) (some clause) none) := by
  obtain ⟨data, hid, h⟩ := Option.bind_eq_some_iff.mp h
  split at h
  · next block clause => exact ⟨block, clause, hid⟩
  · cases h

/-! ### Executions -/

variable {σ V : Type}

/-- What statements do, `try` with `catch` aside. A state holds all that they read and change. -/
structure Meaning (σ V : Type) where
  /-- How a statement that begins in a state may end, and in which state. -/
  step : NodeId → σ → Completion V → σ → Prop
  /-- The state in which a reason begins to be handled. -/
  enter : Option String → V → σ → σ
  /-- The state after a block, by the states in which it was entered and left. -/
  leave : σ → σ → σ

/-- A statement, or statements one after another. -/
inductive Code where
  | statement (id : NodeId)
  | statements (ids : List NodeId)

/-- `Executes t m code s begun c s'`: begun in the state `s`, the code may end as `c` in the state
`s'`, after the statements `begun` have been begun in this order. -/
inductive Executes (t : Tree) (m : Meaning σ V) :
    Code → σ → List NodeId → Completion V → σ → Prop where
  | nil (s : σ) : Executes t m (.statements []) s [] .normal s
  | next {id ids s s₁ s₂ begun begun' c} (hid : Executes t m (.statement id) s begun .normal s₁)
      (hids : Executes t m (.statements ids) s₁ begun' c s₂) :
      Executes t m (.statements (id :: ids)) s (begun ++ begun') c s₂
  | stop {id ids s s₁ begun c} (hid : Executes t m (.statement id) s begun c s₁)
      (hc : c ≠ .normal) : Executes t m (.statements (id :: ids)) s begun c s₁
  | simple {id s s₁ c} (hid : catchParts? t id = none) (hstep : m.step id s c s₁) :
      Executes t m (.statement id) s [id] c s₁
  /-- The statements of a `try` do not throw. -/
  | tried {id parts s s₁ begun c} (hid : catchParts? t id = some parts)
      (htried : Executes t m (.statements parts.tried) s begun c s₁) (hc : ∀ x, c ≠ .thrown x) :
      Executes t m (.statement id) s begun c (m.leave s s₁)
  /-- The statements of a `try` throw. -/
  | caught {id parts s s₁ s₂ begun begun' x c} (hid : catchParts? t id = some parts)
      (htried : Executes t m (.statements parts.tried) s begun (.thrown x) s₁)
      (hhandled : Executes t m (.statements parts.handled)
        (m.enter parts.reason x (m.leave s s₁)) begun' c s₂) :
      Executes t m (.statement id) s (begun ++ begun') c (m.leave s s₂)

variable {t : Tree} {m : Meaning σ V} {s s' : σ} {begun : List NodeId} {c : Completion V}

theorem executes_nil :
    Executes t m (.statements []) s begun c s' ↔ begun = [] ∧ c = .normal ∧ s' = s := by
  constructor
  · intro h
    cases h
    exact ⟨rfl, rfl, rfl⟩
  · rintro ⟨rfl, rfl, rfl⟩
    exact .nil s'

theorem executes_cons {id : NodeId} {ids : List NodeId} :
    Executes t m (.statements (id :: ids)) s begun c s' ↔
      (Executes t m (.statement id) s begun c s' ∧ c ≠ .normal) ∨
        ∃ s₁ begun₁ begun₂, Executes t m (.statement id) s begun₁ .normal s₁ ∧
          Executes t m (.statements ids) s₁ begun₂ c s' ∧ begun = begun₁ ++ begun₂ := by
  constructor
  · intro h
    cases h with
    | next hid hids => exact .inr ⟨_, _, _, hid, hids, rfl⟩
    | stop hid hc => exact .inl ⟨hid, hc⟩
  · rintro (⟨hid, hc⟩ | ⟨s₁, begun₁, begun₂, hid, hids, rfl⟩)
    · exact .stop hid hc
    · exact .next hid hids

theorem executes_singleton {id : NodeId} :
    Executes t m (.statements [id]) s begun c s' ↔ Executes t m (.statement id) s begun c s' := by
  rw [executes_cons]
  constructor
  · rintro (⟨hid, -⟩ | ⟨s₁, begun₁, begun₂, hid, hnil, rfl⟩)
    · exact hid
    · obtain ⟨rfl, rfl, rfl⟩ := executes_nil.mp hnil
      rwa [List.append_nil]
  · intro hid
    cases c with
    | normal => exact .inr ⟨s', begun, [], hid, .nil s', (List.append_nil begun).symm⟩
    | returned | thrown => exact .inl ⟨hid, nofun⟩

/-- The second list executes only after the first one has ended normally. -/
theorem executes_append {ids ids' : List NodeId} :
    Executes t m (.statements (ids ++ ids')) s begun c s' ↔
      (Executes t m (.statements ids) s begun c s' ∧ c ≠ .normal) ∨
        ∃ s₁ begun₁ begun₂, Executes t m (.statements ids) s begun₁ .normal s₁ ∧
          Executes t m (.statements ids') s₁ begun₂ c s' ∧ begun = begun₁ ++ begun₂ := by
  induction ids generalizing s begun with
  | nil =>
      rw [List.nil_append]
      constructor
      · intro h
        exact .inr ⟨s, [], begun, .nil s, h, rfl⟩
      · rintro (⟨h, hc⟩ | ⟨s₁, begun₁, begun₂, h, h', rfl⟩)
        · exact absurd (executes_nil.mp h).2.1 hc
        · obtain ⟨rfl, -, rfl⟩ := executes_nil.mp h
          exact h'
  | cons id ids ih =>
      rw [List.cons_append, executes_cons]
      constructor
      · rintro (⟨hid, hc⟩ | ⟨s₁, begun₁, begun₂, hid, hids, rfl⟩)
        · exact .inl ⟨.stop hid hc, hc⟩
        · rcases ih.mp hids with ⟨hfirst, hc⟩ | ⟨s₂, begun₃, begun₄, hfirst, hids', rfl⟩
          · exact .inl ⟨.next hid hfirst, hc⟩
          · exact .inr ⟨s₂, begun₁ ++ begun₃, begun₄, .next hid hfirst, hids',
              (List.append_assoc ..).symm⟩
      · rintro (⟨h, hc⟩ | ⟨s₂, begun₁, begun₂, h, hids', rfl⟩)
        · rcases executes_cons.mp h with ⟨hid, hc⟩ | ⟨s₁, begun₁, begun₂, hid, hids, rfl⟩
          · exact .inl ⟨hid, hc⟩
          · exact .inr ⟨s₁, begun₁, begun₂, hid, ih.mpr (.inl ⟨hids, hc⟩), rfl⟩
        · rcases executes_cons.mp h with ⟨-, hc⟩ | ⟨s₁, begun₃, begun₄, hid, hids, rfl⟩
          · exact absurd rfl hc
          · exact .inr ⟨s₁, begun₃, begun₄ ++ begun₂, hid,
              ih.mpr (.inr ⟨s₂, begun₄, begun₂, hids, hids', rfl⟩), List.append_assoc ..⟩

theorem executes_simple {id : NodeId} (hid : catchParts? t id = none) :
    Executes t m (.statement id) s begun c s' ↔ begun = [id] ∧ m.step id s c s' := by
  constructor
  · intro h
    cases h with
    | simple _ hstep => exact ⟨rfl, hstep⟩
    | tried hparts | caught hparts => rw [hid] at hparts; cases hparts
  · rintro ⟨rfl, hstep⟩
    exact .simple hid hstep

/-- The statements of a `catch` execute if those of its `try` have thrown, and only then. -/
theorem executes_try {id : NodeId} {parts : TryParts} (hid : catchParts? t id = some parts) :
    Executes t m (.statement id) s begun c s' ↔
      (∃ s₁, Executes t m (.statements parts.tried) s begun c s₁ ∧ (∀ x, c ≠ .thrown x) ∧
        s' = m.leave s s₁) ∨
      ∃ s₁ s₂ begun₁ begun₂ x, Executes t m (.statements parts.tried) s begun₁ (.thrown x) s₁ ∧
        Executes t m (.statements parts.handled) (m.enter parts.reason x (m.leave s s₁))
          begun₂ c s₂ ∧ begun = begun₁ ++ begun₂ ∧ s' = m.leave s s₂ := by
  constructor
  · intro h
    cases h with
    | simple hnone => rw [hid] at hnone; cases hnone
    | tried hparts htried hc =>
        cases hid.symm.trans hparts
        exact .inl ⟨_, htried, hc, rfl⟩
    | caught hparts htried hhandled =>
        cases hid.symm.trans hparts
        exact .inr ⟨_, _, _, _, _, htried, hhandled, rfl, rfl⟩
  · rintro (⟨s₁, htried, hc, rfl⟩ | ⟨s₁, s₂, begun₁, begun₂, x, htried, hhandled, rfl, rfl⟩)
    · exact .tried hid htried hc
    · exact .caught hid htried hhandled

/-! ### Machines -/

/-- The meaning that a machine gives to statements. -/
def Machine.meaning (m : Machine V) : Meaning (Env V × Promise.History V) V where
  step id s c s' := m.step? ⟨s.1, s.2, .normal⟩ id = some ⟨s'.1, s'.2, c⟩
  enter text x s := ((text.map fun text => s.1.set text ⟨x, false⟩).getD s.1, s.2)
  leave s s' := (s.1.leave s'.1, s'.2)

theorem Machine.step?_of_catchParts? {m : Machine V} {k : Moment V} {id : NodeId}
    {parts : TryParts} (h : catchParts? m.tree id = some parts) : m.step? k id = none := by
  obtain ⟨block, clause, hd⟩ := data?_of_catchParts? h
  obtain ⟨node, hnode, hdata⟩ := Option.map_eq_some_iff.mp hd
  rw [step?, hnode, Option.bind_eq_bind, Option.bind_some, hdata]

/-- A statement other than `try` executes as the machine runs it. -/
theorem Machine.executes_step {m : Machine V} {s : Env V × Promise.History V} {k : Moment V}
    {id : NodeId} (hid : catchParts? m.tree id = none)
    (hstep : m.step? ⟨s.1, s.2, .normal⟩ id = some k) {begun : List NodeId} {c : Completion V}
    {s' : Env V × Promise.History V} :
    Executes m.tree m.meaning (.statements [id]) s begun c s' ↔
      begun = [id] ∧ c = k.completion ∧ s' = (k.env, k.past) := by
  rw [executes_singleton, executes_simple hid]
  refine and_congr_right fun _ => ?_
  change m.step? ⟨s.1, s.2, .normal⟩ id = some ⟨s'.1, s'.2, c⟩ ↔ _
  rw [hstep, Option.some.injEq]
  constructor
  · rintro rfl
    exact ⟨rfl, rfl⟩
  · rintro ⟨rfl, rfl⟩
    rfl

/-- A statement with this execution, and then statements that run from where it ends. -/
theorem Executes.followed {m : Machine V} {s : Env V × Promise.History V} {k k' : Moment V}
    {id : NodeId} {rest begun : List NodeId}
    (h : Executes m.tree m.meaning (.statement id) s begun k.completion (k.env, k.past))
    (hrest : Runs m k rest k')
    (ih : k.completion = .normal → ∃ begun', Executes m.tree m.meaning (.statements rest)
      (k.env, k.past) begun' k'.completion (k'.env, k'.past)) :
    ∃ begun', Executes m.tree m.meaning (.statements (id :: rest)) s begun' k'.completion
      (k'.env, k'.past) := by
  cases hk : k.completion with
  | normal =>
      obtain ⟨begun', hrest⟩ := ih hk
      rw [hk] at h
      exact ⟨_, .next h hrest⟩
  | returned | thrown =>
      have hne : k.completion ≠ .normal := by rw [hk]; exact nofun
      obtain rfl := hrest.eq_of_abrupt hne
      exact ⟨_, .stop h hne⟩

/-- What runs on a machine executes by its meaning. -/
theorem Runs.executes {m : Machine V} {k k' : Moment V} {ids : List NodeId} (h : Runs m k ids k')
    (hk : k.completion = .normal) : ∃ begun, Executes m.tree m.meaning (.statements ids)
      (k.env, k.past) begun k'.completion (k'.env, k'.past) := by
  induction h with
  | nil k => exact ⟨[], by rw [hk]; exact .nil _⟩
  | skip h => exact absurd hk h
  | @simple k k₁ k₂ id rest _ hstep hrest ih =>
      have hparts : catchParts? m.tree id = none := by
        cases hparts : catchParts? m.tree id with
        | none => rfl
        | some parts => rw [Machine.step?_of_catchParts? hparts] at hstep; cases hstep
      obtain ⟨env, past, completion⟩ := k
      cases hk
      exact Executes.followed (.simple hparts hstep) hrest ih
  | tried _ hparts _ hthrown hrest ihTried ihRest =>
      obtain ⟨begun, htried⟩ := ihTried hk
      exact Executes.followed (.tried (catchParts?_of_tryParts? hparts) htried hthrown) hrest ihRest
  | caught _ hparts _ hthrown _ _ hrest ihTried ihHandled ihRest =>
      obtain ⟨begun, htried⟩ := ihTried hk
      obtain ⟨begun', hhandled⟩ := ihHandled rfl
      rw [hthrown] at htried
      exact Executes.followed (.caught (catchParts?_of_tryParts? hparts) htried hhandled) hrest
        ihRest

end Unchain.Execution
