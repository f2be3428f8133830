import Unchain.Conversion.Plan
import Unchain.Proofs.Naming.Sites
import Unchain.Proofs.Unroll.Passes

/-!
# Which bindings are looked up

The register is read in four places: where a variable is declared ahead of a `try`,
where a value is written to a binding, where a function is called with its argument,
and where a failure is caught. A step looks up a binding if what it does depends on
the entry of the binding (`LooksUp`); these four do so when the entry is missing.

A step that looks up other bindings only does the same whatever the entry is
(`modular_blind`). So a chain ignores what no handler of it reads and what holds no
value of it: the handlers that come up while it is unrolled are those that it is
known to have (`Scope.spare`). Whatever is looked up while chains are unrolled is
then read by one of their handlers or holds one of their values (`reads_of_looksUp`).
-/

namespace Unchain.Unroll

open Binding (Table)
open Chain (Handler)
open Naming (Key Site siteKey? sitesFrom sitesUpTo)
open Promise (Oracle)
open Syntax (Data Flags NodeId Tree)
open Syntax.Tree (holds_skipParentheses holds_some)

variable {α β : Type} {t : Tree} {key : Key} {s s' : State}

/-! ### Bindings that a step depends on -/

/-- Two states that differ at most in the entry of one binding. -/
structure SameBut (key : Key) (s s' : State) : Prop where
  tree : s'.tree = s.tree
  successors : s'.successors = s.successors
  patched : s'.patched = s.patched
  entries : ∀ other, other ≠ key → s'.register.get? other = s.register.get? other

/-- The step does the same whatever the entry of the binding is. -/
def Ignores (key : Key) (x : Step α) (s : State) : Prop :=
  ∀ s', SameBut key s s' → (x.run s').1 = (x.run s).1 ∧ SameBut key (x.run s).2 (x.run s').2

/-- A step looks up a binding if it depends on the entry of the binding what the step does. -/
def LooksUp (key : Key) (x : Step α) (s : State) : Prop := ¬ Ignores key x s

theorem SameBut.agree (h : SameBut key s s') : Agree (· ≠ key) s s' :=
  ⟨h.tree, h.successors, h.patched, h.entries⟩

/-- The tree may be exchanged in both states. -/
theorem SameBut.withTree (h : SameBut key s s') (u : Tree) :
    SameBut key { s with tree := u } { s' with tree := u } :=
  ⟨rfl, h.successors, h.patched, h.entries⟩

/-- The entry of a binding may be changed in both states. -/
theorem SameBut.modify (h : SameBut key s s') (other : Key) (f : Naming.Entry → Naming.Entry) :
    SameBut key { s with register := s.register.modify other f }
      { s' with register := s'.register.modify other f } := by
  refine ⟨h.tree, h.successors, h.patched, fun x hx => ?_⟩
  simp only [Naming.Register.get?_modify]
  split
  · next heq => rw [h.entries other (heq ▸ hx)]
  · exact h.entries x hx

/-- The binding may get another entry. -/
theorem SameBut.insert (key : Key) (s : State) (name : String) :
    SameBut key s { s with register := s.register.insert key name } :=
  ⟨rfl, rfl, rfl, fun other hne => by rw [Naming.Register.get?_insert, if_neg hne]⟩

/-! ### Steps that look up a binding

Each of the steps that ask for the name of a binding does something else when there is none.
-/

/-- A step looks up a binding without an entry if it does something else when there is one. -/
theorem looksUp_of_insert {x : Step α} (name : String)
    (h : (x.run { s with register := s.register.insert key name }).1 = (x.run s).1 →
      (x.run { s with register := s.register.insert key name }).2.tree ≠ (x.run s).2.tree) :
    LooksUp key x s := by
  intro hignores
  obtain ⟨hresult, hsame⟩ := hignores _ (.insert key s name)
  exact h hresult hsame.tree

/-- The step makes `n` nodes. -/
def AddsNodes (n : Nat) (x : Step α) : Prop := ∀ s, (x.run s).2.tree.size = s.tree.size + n

namespace AddsNodes

variable {m n : Nat}

theorem pure (a : α) : AddsNodes 0 (Pure.pure a : Step α) := fun _ => rfl

theorem bind {x : Step α} {f : α → Step β} (hx : AddsNodes m x) (hf : ∀ a, AddsNodes n (f a)) :
    AddsNodes (m + n) (x >>= f) := fun s =>
  (hf (x.run s).1 (x.run s).2).trans (by rw [hx s, Nat.add_assoc])

theorem make (data : Data) (flags : Flags) : AddsNodes 1 (make data flags) :=
  fun _ => Tree.size_add ..

end AddsNodes

section

variable (h : s.register.get? key = none)
include h

theorem looksUp_hoist : LooksUp key (hoist (.binding key)) s := by
  have hname := Naming.Register.name?_eq_none h
  have hrun : (hoist (.binding key)).run s = ([], s) := by
    rw [hoist, run_get_bind]
    simp only [hname]
    rfl
  refine looksUp_of_insert "x" fun hresult => ?_
  rw [hrun, hoist, run_get_bind] at hresult
  simp only [Naming.Register.name?_insert, Naming.Register.isDeclared, Naming.Register.get?_insert,
    if_pos] at hresult
  cases hresult

theorem looksUp_writeBinding (value : Option NodeId) : LooksUp key (writeBinding key value) s := by
  refine looksUp_of_insert "x" fun hresult => ?_
  rw [writeBinding, run_get_bind, run_get_bind, h, Naming.Register.get?_insert,
    if_pos rfl] at hresult
  have hid : ((s.tree.add (.identifier "x") 0 0 {}).2.add (.variableDeclaration
      (some s.tree.size) false none value) 0 0 {}).2.size = s.tree.size := hresult
  rw [Tree.size_add, Tree.size_add] at hid
  omega

theorem looksUp_makeTry (tried handled : List NodeId) :
    LooksUp key (makeTry tried handled key) s := by
  have hrest (binding : Option NodeId) (block : NodeId) : AddsNodes 3 (do
      let handler ← makeBlock handled
      let clause ← make (.catchClause binding (some handler))
      make (.tryStatement (some block) (some clause) none)) :=
    .bind (.make _ _) fun _ => .bind (.make _ _) fun _ => .make _ _
  have hsize (s : State) : ((makeTry tried handled key).run s).2.tree.size =
      s.tree.size + if (s.register.name? key).isSome then 6 else 4 := by
    have hblock : (makeBlock tried).run s = (s.tree.size, { s with
        tree := (s.tree.add (.block .block { nodes := tried } true) 0 0 {}).2 }) := rfl
    have hrun : (makeTry tried handled key).run s = _ :=
      (run_bind hblock).trans ((run_get_bind ..).trans (run_modify_bind ..))
    rw [hrun]
    cases s.register.name? key with
    | none => exact (AddsNodes.bind (.pure none) (hrest · _) _).trans (by rw [Tree.size_add]; rfl)
    | some name =>
      have hdeclarator : AddsNodes 2 (some <$> makeDeclarator name none) := fun s =>
        AddsNodes.bind (.make _ _) (fun _ => .make _ _) s
      exact (hdeclarator.bind (hrest · _) _).trans (by rw [Tree.size_add]; rfl)
  have hname := Naming.Register.name?_eq_none h
  refine looksUp_of_insert "x" fun _ htree => ?_
  have hne := congrArg Tree.size htree
  rw [hsize, hsize, hname, Naming.Register.name?_insert, if_pos rfl] at hne
  simp at hne

/-- Where a call without arguments is made first, the name of the argument would be. -/
theorem looksUp_unrollHandler (unroll : Unroller) (c : Context) (function : NodeId) (sink : Sink) :
    LooksUp key (unrollHandler unroll c (.named function) (some key) sink).run s := by
  have hname := Naming.Register.name?_eq_none h
  have hkept {s₁ : State} {call : NodeId} {data : Data}
      (hdata : s₁.tree.data? s.tree.size = some data) (hd : ∀ e, data ≠ .leave .returns (some e)) :
      ((write c (some call) sink true).run s₁).2.tree.data? s.tree.size = some data :=
    ((modular_passes c.oracle fun _ => True).write sink.within_all c _ true s₁).evolves.data?
      hdata hd
  -- The first node that is made is the call if there is no name, and the name if there is one.
  have hmissing : ((unrollHandler unroll c (.named function) (some key) sink).run.run
      s).2.tree.data? s.tree.size =
        some (.call .call (some function) none (some { nodes := [] })) := by
    obtain ⟨s₁, hcall, -, hnode⟩ :=
      run_make (.call .call (some function) none (some { nodes := [] })) {} s
    have hrun : (unrollHandler unroll c (.named function) (some key) sink).run.run s =
        (liftM (write c (some s.tree.size) sink true) : Attempt (List NodeId)).run.run s₁ := by
      refine (attempt_get_bind _ s).trans ?_
      simp only [Option.bind_some, hname, Option.toList_none, List.mapM_nil]
      exact (attempt_bind (attempt_pure [] s)).trans (attempt_bind (attempt_lift hcall))
    rw [hrun]
    exact hkept hnode.data? nofun
  have hpresent : ((unrollHandler unroll c (.named function) (some key) sink).run.run
      { s with register := s.register.insert key "x" }).2.tree.data? s.tree.size =
        some (.identifier "x") := by
    obtain ⟨s₁, hargument, -, hnode⟩ :=
      run_make (.identifier "x") {} { s with register := s.register.insert key "x" }
    obtain ⟨s₂, hcall, hmakes, hnode'⟩ :=
      run_make (.call .call (some function) none (some { nodes := [s.tree.size] })) {} s₁
    have hrun : (unrollHandler unroll c (.named function) (some key) sink).run.run
        { s with register := s.register.insert key "x" } =
          (liftM (write c (some s₁.tree.size) sink true) : Attempt (List NodeId)).run.run s₂ := by
      refine (attempt_get_bind _ _).trans ?_
      simp only [Option.bind_some, Naming.Register.name?_insert, if_pos, Option.toList_some,
        List.mapM_cons, List.mapM_nil]
      refine (attempt_bind (show _ = (some [s.tree.size], s₁) from ?_)).trans ?_
      · exact attempt_bind (attempt_lift hargument)
      · exact attempt_bind (attempt_lift hcall)
    rw [hrun]
    exact hkept (hmakes.grows.data? hnode.data?) nofun
  refine looksUp_of_insert "x" fun _ htree => ?_
  rw [htree, hmissing] at hpresent
  cases hpresent

end

/-- Every step that asks for the name of a binding looks the binding up if it has no entry. -/
theorem looksUp_of_get?_eq_none (h : s.register.get? key = none) :
    LooksUp key (hoist (.binding key)) s ∧
      (∀ value, LooksUp key (writeBinding key value) s) ∧
      (∀ tried handled, LooksUp key (makeTry tried handled key) s) ∧
      ∀ unroll c function sink,
        LooksUp key (unrollHandler unroll c (.named function) (some key) sink).run s :=
  ⟨looksUp_hoist h, looksUp_writeBinding h, looksUp_makeTry h, looksUp_unrollHandler h⟩

/-- A state without names. -/
theorem looksUp_of_get?_eq_none_empty :
    let s : State := { tree := ⟨#[]⟩, register := {} }
    s.register.get? (.minted 0) = none ∧ LooksUp (.minted 0) (hoist (.binding (.minted 0))) s ∧
      LooksUp (.minted 0) (writeBinding (.minted 0) none) s ∧
      LooksUp (.minted 0) (makeTry [] [] (.minted 0)) s := by
  intro s
  have hnone : s.register.get? (.minted 0) = none := rfl
  obtain ⟨hhoist, hwrite, htry, -⟩ := looksUp_of_get?_eq_none hnone
  exact ⟨hnone, hhoist, hwrite none, htry [] []⟩

/-! ### Steps that do not -/

theorem Ignores.bind {x : Step α} {f : α → Step β} (hx : Ignores key x s)
    (hf : Ignores key (f (x.run s).1) (x.run s).2) : Ignores key (x >>= f) s := by
  intro s' hsame
  obtain ⟨hresult, hsame'⟩ := hx s' hsame
  have hrun : (x >>= f).run s' = (f (x.run s).1).run (x.run s').2 :=
    run_bind (run_eq_of_fst hresult)
  rw [hrun]
  exact hf _ hsame'

theorem ignores_make (s : State) (data : Data) (flags : Flags) :
    Ignores key (make data flags) s := by
  intro s' hsame
  have hrun (s : State) : (make data flags).run s =
      ((s.tree.add data 0 0 flags).1, { s with tree := (s.tree.add data 0 0 flags).2 }) := rfl
  rw [hrun, hrun, hsame.tree]
  exact ⟨rfl, hsame.withTree _⟩

theorem ignores_awaitReturn (s : State) (c : Context) (id : NodeId) :
    Ignores key (awaitReturn c id) s := by
  intro s' hsame
  have hawait (s : State) (e : NodeId) : (do
      let awaited ← makeAwait (some e)
      modify fun s => { s with
        tree := setReturned s.tree id awaited
        patched := (id, e) :: s.patched } : Step Unit).run s =
      ((), { s with
        tree := setReturned (s.tree.add (.unary .await (some e)) 0 0 {}).2 id s.tree.size
        patched := (id, e) :: s.patched }) := rfl
  have hrun (s : State) : (awaitReturn c id).run s = _ := run_get_bind _ s
  rw [hrun, hrun]
  simp only [hsame.tree]
  split
  · split
    · rw [hawait, hawait, hsame.tree, hsame.patched]
      exact ⟨trivial, rfl, hsame.successors, rfl, hsame.entries⟩
    · exact ⟨trivial, hsame⟩
  · exact ⟨trivial, hsame⟩

/-- An attempt that fails takes the names back, and they were the same before. -/
theorem Ignores.attempt {a : Attempt α} (ha : Ignores key a.run s) :
    Ignores key (Unroll.attempt a) s := by
  intro s' hsame
  obtain ⟨hresult, hsame'⟩ := ha s' hsame
  rcases hrun : a.run.run s with ⟨result | result, s₁⟩
  · rw [hrun] at hresult hsame'
    rw [attempt_run_of_none hrun, attempt_run_of_none (run_eq_of_fst hresult)]
    refine ⟨rfl, ⟨?_, hsame'.successors, ?_, hsame.entries⟩⟩
    · simp only [State.unpatch, hsame'.tree, hsame'.patched, hsame.patched]
    · simp only [State.unpatch, hsame'.patched, hsame.patched]
  · rw [hrun] at hresult hsame'
    rw [attempt_run_of_some hrun, attempt_run_of_some (run_eq_of_fst hresult)]
    exact ⟨rfl, hsame'⟩

/-- The step ignores the binding, and the state passes into the one that it leaves. -/
def Blind (o : Oracle) (key : Key) (s : State) (x : Step α) : Prop :=
  Ignores key x s ∧ Passes o (fun _ => True) s (x.run s).2

/-- Unrolling ignores a binding as long as only others are asked for. -/
theorem modular_blind (o : Oracle) (key : Key) :
    Modular o (· ≠ key) (fun _ => True) fun s x => Blind o key s x :=
  have hpasses := modular_passes o fun _ => True
  { evolves := fun h => h.2.evolves
    pure := fun s _ => ⟨fun _ hsame => ⟨rfl, hsame⟩, .refl s⟩
    bind := fun hx hf => ⟨hx.1.bind hf.1, hpasses.bind hx.2 hf.2⟩
    get := fun {_ s f} hsame h => by
      refine ⟨fun s' hs' => ?_, h.2⟩
      rw [run_get_bind, run_get_bind, hsame s' hs'.agree]
      exact h.1 s' hs'
    make := fun s data flags => ⟨ignores_make s data flags, hpasses.make s data flags⟩
    names := fun s other f =>
      ⟨fun _ hsame => ⟨rfl, hsame.modify other f⟩, hpasses.names s other f⟩
    awaits := fun s c id => ⟨ignores_awaitReturn s c id, hpasses.awaits s c id⟩
    marks := fun s e _ => by
      refine ⟨fun s' hsame => ⟨rfl, hsame.tree, ?_, hsame.patched, hsame.entries⟩,
        hpasses.marks s trivial⟩
      change s'.successors.mark s'.tree o (some e) false = _
      rw [hsame.tree, hsame.successors]
      rfl
    attempt := fun ha => ⟨ha.1.attempt, hpasses.attempt ha.2⟩ }

/-! ### Handlers that do not read a binding -/

section

variable (t : Tree) (o : Oracle) (b : Table) (nesting : Nat) (key : Key)

/-- None of the handlers reads its argument from the binding. -/
def Spare (sites : List Site) : Prop := ∀ site ∈ sites, siteKey? t b site ≠ some key

/-- A handler that gets its argument from another binding, and of which the chains do not read the
binding either. -/
structure Shuns (site : Site) : Prop where
  key_ne : siteKey? t b site ≠ some key
  chains : ∀ chain ∈ Naming.chainsOfHandler t o site.handler,
    Spare t b key (sitesUpTo t o nesting chain)
  lt_size : ∀ function, site.handler = .literal function → function < t.size

end

variable {o : Oracle} {b : Table} {nesting limit : Nat} {e : Option NodeId}

theorem shuns_absent (role : Naming.Role) : Shuns t o b nesting key ⟨.absent, role⟩ :=
  ⟨by cases role <;> simp [siteKey?, Naming.valueKey?, Naming.reasonKey?], nofun, nofun⟩

/-- A handler of a link that no handler from the link on reads the binding for. -/
theorem shuns_of_spare {site : Site} (hspare : Spare t b key (sitesFrom t o nesting (limit + 1) e))
    (hsite : let link := Chain.linkOf t o (t.skipParentheses e)
      site = ⟨Chain.handlerOf t o link.handlers.1, .fulfillment⟩ ∨
        site = ⟨Chain.handlerOf t o link.handlers.2, .rejection⟩) :
    Shuns t o b nesting key site := by
  by_cases habsent : site.handler = .absent
  · obtain ⟨handler, role⟩ := site
    obtain rfl : handler = .absent := habsent
    exact shuns_absent role
  have hmem := Naming.mem_sitesOfLink.mpr ⟨hsite, habsent⟩
  have hhead : (t.skipParentheses e, Chain.linkOf t o (t.skipParentheses e)) ∈
      Chain.spineUpTo t o (limit + 1) e := by
    rw [Chain.spineUpTo]
    exact List.mem_cons_self
  have hreads (site' : Site) (h : site' = site ∨ ∃ chain ∈ Naming.chainsOfHandler t o
      site.handler, site' ∈ sitesUpTo t o nesting chain) : siteKey? t b site' ≠ some key :=
    hspare site' (Naming.mem_sitesFrom.mpr ⟨_, _, hhead, site, hmem, h⟩)
  exact ⟨hreads site (.inl rfl), fun chain hchain site' hsite' =>
    hreads site' (.inr ⟨chain, hchain, hsite'⟩), fun _ => Naming.lt_size_of_mem_sitesOfLink hmem⟩

/-- What a link leads to has no other handlers. -/
theorem sitesFrom_onward_subset {part : Option NodeId}
    (h : (Chain.linkOf t o (t.skipParentheses e)).onward? = some part) :
    sitesFrom t o nesting limit part ⊆ sitesFrom t o nesting (limit + 1) e := by
  cases hid : t.skipParentheses e with
  | none =>
      rw [hid] at h
      cases h
  | some id =>
      rw [hid] at h
      cases hlink : Chain.linkOf t o (some id) with
      | thenCall callee receiver onFulfilled onRejected =>
          rw [hlink] at h
          obtain rfl := Option.some.inj h
          obtain ⟨arguments, hcalls, -⟩ := Chain.callsMethod_of_thenCall hlink
          exact Naming.sitesFrom_callee_subset hid hcalls (by rw [hlink]; rfl)
      | catchCall callee receiver onRejected =>
          rw [hlink] at h
          obtain rfl := Option.some.inj h
          obtain ⟨arguments, hcalls, -⟩ := Chain.callsMethod_of_catchCall hlink
          exact Naming.sitesFrom_callee_subset hid hcalls (by rw [hlink]; rfl)
      | member receiver =>
          rw [hlink] at h
          obtain rfl := Option.some.inj h
          exact Naming.sitesFrom_receiver_subset (by rw [hid, hlink]; rfl)
      | _ => rw [hlink] at h; cases h

/-- Chains of the source of which no handler reads the binding. -/
def Scope.spare (ht : t.Closed) (o : Oracle) (b : Table) (key : Key) :
    Scope o b (· ≠ key) fun _ => True where
  Sees u := t.Evolves u
  Links limit nesting e := t.Holds e ∧ Spare t b key (sitesFrom t o nesting limit e)
  Handles nesting site := Shuns t o b nesting key site
  Nests nesting e := e < t.size ∧ Spare t b key (sitesUpTo t o nesting e)
  Follows limit := limit ≤ Limits.chainLinks
  evolves h hgrow := h.trans hgrow
  onward h he hpart := by
    rw [linkOf_skipParentheses_evolves ht o h he.1] at hpart
    exact ⟨holds_of_onward? ht hpart, fun site hsite =>
      he.2 site (sitesFrom_onward_subset hpart hsite)⟩
  handlers {u _ _ e} h he := by
    let link := Chain.linkOf t o (t.skipParentheses e)
    obtain ⟨hfulfilled, hrejected⟩ : t.Holds link.handlers.1 ∧ t.Holds link.handlers.2 :=
      Naming.holds_handlers ht
    rw [linkOf_skipParentheses_evolves ht o h he.1]
    dsimp only
    rw [Chain.handlerOf_evolves h ht o hfulfilled, Chain.handlerOf_evolves h ht o hrejected]
    exact ⟨shuns_of_spare he.2 (.inl rfl), shuns_of_spare he.2 (.inr rfl)⟩
  reads h hsite hkey heq := by
    rw [(Naming.offers_of_evolves (o := o) b h ht).siteKey?_eq hsite.lt_size, heq] at hkey
    exact hsite.key_ne hkey
  nests h hsite he := by
    have hbefore := (Naming.offers_of_evolves b h ht).chains (hsite.lt_size _ rfl) he
    exact ⟨Naming.lt_size_of_mem_handlerChains ht hbefore, hsite.chains _ hbefore⟩
  chain hlimit he := ⟨holds_some.mpr he.1, fun site hsite =>
    he.2 site (Naming.sitesFrom_mono hlimit _ hsite)⟩
  marks _ := trivial
  follows h := Nat.le_of_succ_le h

/-! ### Whole chains -/

theorem blind_unrollChain (ht : t.Closed) {c : Context} {e : NodeId} {sink : Sink}
    (hgrow : t.Evolves s.tree) (he : e < t.size)
    (hspare : Spare t c.bindings key (sitesFrom t c.oracle c.nesting Limits.chainLinks (some e)))
    (hsink : sink ≠ .binding key) : Blind c.oracle key s (unrollChain c e sink) := by
  refine (modular_blind c.oracle key).unrollChain (Scope.spare ht c.oracle c.bindings key)
    (Nat.sub_le _ _) hgrow ⟨holds_some.mpr he, hspare⟩ ?_
  rintro other rfl rfl
  exact hsink rfl

/-- Unrolling the chains of groups ignores the bindings that no handler of theirs reads and that
hold no value of theirs. -/
theorem blind_unrollGroups (ht : t.Closed) {file : SourceFile} {o : Oracle} {function : NodeId}
    {groups : List Chain.Group} (hgrow : t.Evolves s.tree)
    (hchains : ∀ group ∈ groups, group.chain < t.size)
    (hspare : ∀ group ∈ groups, Spare t file.bindings key (Naming.sitesOf t o group.chain))
    (hsinks : ∀ group ∈ groups, Conversion.sinkOf group ≠ .binding key) :
    Blind o key s (Conversion.unrollGroups file o function groups) := by
  have hblind := modular_blind o key
  unfold Conversion.unrollGroups
  induction groups generalizing s with
  | nil => exact hblind.pure s _
  | cons group rest ih =>
      rw [List.mapM_cons]
      have hfirst : Blind o key s (Conversion.unrollGroup file o function group) :=
        blind_unrollChain ht hgrow (hchains group List.mem_cons_self)
          (hspare group List.mem_cons_self) (hsinks group List.mem_cons_self)
      refine hblind.seq hfirst fun _ s' hgrow' =>
        hblind.seq (ih (hgrow.trans hgrow') ?_ ?_ ?_) fun _ s' _ => hblind.pure s' _
      · exact fun other hother => hchains other (List.mem_cons_of_mem _ hother)
      · exact fun other hother => hspare other (List.mem_cons_of_mem _ hother)
      · exact fun other hother => hsinks other (List.mem_cons_of_mem _ hother)

/-- What is looked up while the chains of groups are unrolled is what a handler of theirs reads or
what holds a value of theirs. -/
theorem reads_of_looksUp (ht : t.Closed) {s : SourceFile} {o : Oracle} {function : NodeId}
    {groups : List Chain.Group} {state : State} (htree : state.tree = t)
    (hchains : ∀ group ∈ groups, group.chain < t.size)
    (h : LooksUp key (Conversion.unrollGroups s o function groups) state) :
    ∃ group ∈ groups, (∃ site ∈ Naming.sitesOf t o group.chain,
      siteKey? t s.bindings site = some key) ∨ Conversion.sinkOf group = .binding key := by
  refine Classical.byContradiction fun hno => ?_
  have hsites (group) (hgroup : group ∈ groups) :
      Spare t s.bindings key (Naming.sitesOf t o group.chain) :=
    fun site hsite heq => hno ⟨group, hgroup, .inl ⟨site, hsite, heq⟩⟩
  have hsinks (group) (hgroup : group ∈ groups) : Conversion.sinkOf group ≠ .binding key :=
    fun heq => hno ⟨group, hgroup, .inr heq⟩
  exact h (blind_unrollGroups ht (htree ▸ .refl state.tree) hchains hsites hsinks).1

end Unchain.Unroll
