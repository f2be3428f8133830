import Unchain.Proofs.Naming.Sites
import Unchain.Proofs.Unroll.Undo

/-!
# A walk over unrolling

Unrolling is put together from few kinds of steps: nodes are made, names change,
returns come to await, chains are marked, attempts are made. A property of runs that
these have, and that a sequence has if its parts do, is `Modular`. All of unrolling has
it then (`Modular.unroll`, `Modular.unrollChain`), whether attempts succeed or not.

What comes up on the way depends on the chain that is unrolled. A `Scope` says which
expressions, handlers and chains in handlers that can be, and it is closed under what
a link leads to. So a property may ask that only certain bindings are looked up, or
that only certain chains are marked.
-/

namespace Unchain

open Binding (Table)
open Chain (Handler Link)
open Naming (Entry Key Site siteKey?)
open Promise (Oracle)
open Syntax (Data Flags NodeId Tree)

/-- The expression that unrolling goes on with from a link. -/
def Chain.Link.onward? : Link → Option (Option NodeId)
  | .thenCall callee .. | .catchCall callee .. => some (some callee)
  | .member receiver => some receiver
  | .finallyCall _ | .promise | .other => none

namespace Unroll

variable {α β : Type} {o : Oracle} {b : Table} {Reads : Key → Prop} {Marks : NodeId → Prop}

/-! ### Properties of runs -/

/-- Two states that look the same to a step that looks up no other bindings than `Reads`. -/
structure Agree (Reads : Key → Prop) (s s' : State) : Prop where
  tree : s'.tree = s.tree
  successors : s'.successors = s.successors
  patched : s'.patched = s.patched
  entries : ∀ key, Reads key → s'.register.get? key = s.register.get? key

namespace Agree

variable {s s' : State} {key : Key}

theorem name?_eq (h : Agree Reads s s') (hkey : Reads key) :
    s'.register.name? key = s.register.name? key :=
  congrArg (Option.map _) (h.entries key hkey)

theorem isDeclared_eq (h : Agree Reads s s') (hkey : Reads key) :
    s'.register.isDeclared key = s.register.isDeclared key :=
  congrArg (Option.any _) (h.entries key hkey)

end Agree

/-- The property `P s x` of running the step `x` in the state `s` holds of the steps that unrolling
is put together from, as long as only the bindings `Reads` are looked up and only chains `Marks`
are marked. -/
structure Modular (o : Oracle) (Reads : Key → Prop) (Marks : NodeId → Prop)
    (P : ∀ {α : Type}, State → Step α → Prop) : Prop where
  evolves {α : Type} {s : State} {x : Step α} (h : P s x) : s.tree.Evolves (x.run s).2.tree
  pure {α : Type} (s : State) (a : α) : P s (Pure.pure a)
  bind {α β : Type} {s : State} {x : Step α} {f : α → Step β} (hx : P s x)
    (hf : P (x.run s).2 (f (x.run s).1)) : P s (x >>= f)
  /-- What is done may depend on the state, names of other bindings apart. -/
  get {α : Type} {s : State} {f : State → Step α} (hsame : ∀ s', Agree Reads s s' → f s' = f s)
    (h : P s (f s)) : P s (MonadState.get >>= f)
  make (s : State) (data : Data) (flags : Flags) : P s (make data flags)
  names (s : State) (key : Key) (f : Entry → Entry) :
    P s (modify fun s => { s with register := s.register.modify key f } : Step PUnit)
  awaits (s : State) (c : Context) (id : NodeId) : P s (awaitReturn c id)
  marks (s : State) {e : NodeId} (he : Marks e) : P s (modify fun s =>
    { s with successors := s.successors.mark s.tree o (some e) false } : Step PUnit)
  attempt {α : Type} {s : State} {a : Attempt α} (ha : P s a.run) : P s (attempt a)

/-! ### Expressions that come up -/

/-- What can come up when chains are unrolled. The numbers say how many links are followed yet, and
how many more handlers with chains may be nested. -/
structure Scope (o : Oracle) (b : Table) (Reads : Key → Prop) (Marks : NodeId → Prop) where
  /-- The trees that are met. -/
  Sees : Tree → Prop
  /-- The expressions that are unrolled. -/
  Links (limit nesting : Nat) (e : Option NodeId) : Prop
  /-- The handlers that are converted. -/
  Handles (nesting : Nat) (site : Site) : Prop
  /-- The chains in handlers. -/
  Nests (nesting : Nat) (e : NodeId) : Prop
  /-- How many links may be followed. -/
  Follows (limit : Nat) : Prop
  evolves {u u' : Tree} (h : Sees u) (hgrow : u.Evolves u') : Sees u'
  onward {u : Tree} {limit nesting : Nat} {e part : Option NodeId} (h : Sees u)
    (he : Links (limit + 1) nesting e)
    (hpart : (Chain.linkOf u o (u.skipParentheses e)).onward? = some part) :
    Links limit nesting part
  handlers {u : Tree} {limit nesting : Nat} {e : Option NodeId} (h : Sees u)
    (he : Links (limit + 1) nesting e) :
    let link := Chain.linkOf u o (u.skipParentheses e)
    Handles nesting ⟨Chain.handlerOf u o link.handlers.1, .fulfillment⟩ ∧
      Handles nesting ⟨Chain.handlerOf u o link.handlers.2, .rejection⟩
  reads {u : Tree} {nesting : Nat} {site : Site} {key : Key} (h : Sees u)
    (hsite : Handles nesting site) (hkey : siteKey? u b site = some key) : Reads key
  nests {u : Tree} {nesting : Nat} {function e : NodeId} {role : Naming.Role} (h : Sees u)
    (hsite : Handles nesting ⟨.literal function, role⟩)
    (he : e ∈ Chain.handlerChains u o function) : Nests nesting e
  chain {limit nesting : Nat} {e : NodeId} (hlimit : Follows limit) (he : Nests (nesting + 1) e) :
    Links limit nesting (some e)
  marks {nesting : Nat} {e : NodeId} (he : Nests nesting e) : Marks e
  follows {limit : Nat} (h : Follows (limit + 1)) : Follows limit

/-- A sink that is no other binding than one of `Reads`. -/
def Sink.Within (Reads : Key → Prop) (sink : Sink) : Prop := ∀ key, sink = .binding key → Reads key

theorem Sink.Within.discarded : Sink.discarded.Within Reads := by
  intro key heq
  cases heq

/-- An outlet to no other binding than one of `Reads`. -/
structure Outlet.Within (Reads : Key → Prop) (outlet : Outlet) : Prop where
  argument : ∀ key, outlet.argument = some key → Reads key
  final : outlet.final.Within Reads

theorem Outlet.Within.sink {outlet : Outlet} (h : outlet.Within Reads) (hasSuccessor : Bool) :
    (outlet.sink hasSuccessor).Within Reads := by
  intro key heq
  unfold Outlet.sink at heq
  split at heq
  · cases hargument : outlet.argument with
    | none => rw [hargument] at heq; cases heq
    | some other =>
        rw [hargument] at heq
        exact h.argument key (hargument.trans (congrArg some (Sink.binding.inj heq)))
  · exact h.final key heq

/-- An unroller whose runs have the property for expressions in the scope. -/
def Scope.Over (S : Scope o b Reads Marks) (P : ∀ {α : Type}, State → Step α → Prop) (limit : Nat)
    (unroll : Unroller) : Prop :=
  ∀ c e outlet s, c.oracle = o → c.bindings = b → S.Sees s.tree → S.Links limit c.nesting e →
    outlet.Within Reads → P s (unroll c e outlet)

namespace Modular

variable {P : ∀ {α : Type}, State → Step α → Prop} (hP : Modular o Reads Marks P) {s : State}
include hP

/-! ### Sequences -/

/-- Of what comes before, a step needs to know only that the tree has evolved. -/
theorem seq {x : Step α} {f : α → Step β} (hx : P s x)
    (hf : ∀ a s', s.tree.Evolves s'.tree → P s' (f a)) : P s (x >>= f) :=
  hP.bind hx (hf _ _ (hP.evolves hx))

theorem map {x : Step α} (f : α → β) (hx : P s x) : P s (f <$> x) := by
  rw [← bind_pure_comp]
  exact hP.bind hx (hP.pure _ _)

theorem lift {x : Step α} (hx : P s x) : P s (liftM x : Attempt α).run :=
  hP.map some hx

theorem failure (s : State) : P s (failure : Attempt α).run := hP.pure s none

theorem failure_bind (s : State) (f : α → Attempt β) :
    P s (Alternative.failure >>= f : Attempt β).run := hP.pure s none

theorem attempt_seq {x : Attempt α} {f : α → Attempt β} (hx : P s x.run)
    (hf : ∀ a s', s.tree.Evolves s'.tree → P s' (f a).run) : P s (x >>= f).run := by
  rw [OptionT.run_bind]
  refine hP.seq hx fun result s' hgrow => ?_
  cases result with
  | none => exact hP.pure s' none
  | some a => exact hf a s' hgrow

/-- What follows an answer is only done if there is one. -/
theorem orFail_bind {a : Option α} {f : α → Attempt β} (h : ∀ x, a = some x → P s (f x).run) :
    P s (orFail a >>= f).run := by
  cases a with
  | none => exact hP.pure s none
  | some x => exact h x rfl

theorem attempt_get {f : State → Attempt β} (hsame : ∀ s', Agree Reads s s' → f s' = f s)
    (h : P s (f s).run) : P s (MonadState.get >>= f : Attempt β).run := by
  change P s (MonadState.get >>= fun s => (f s).run : Step (Option β))
  exact hP.get (fun s' h => congrArg OptionT.run (hsame s' h)) h

theorem attempt_mapM {f : α → Attempt β} (hf : ∀ a s, P s (f a).run) (as : List α) (s : State) :
    P s (as.mapM f).run := by
  induction as generalizing s with
  | nil => exact hP.pure s _
  | cons a as ih =>
      rw [List.mapM_cons]
      exact hP.attempt_seq (hf a s) fun _ s' _ => hP.attempt_seq (ih s') fun _ s' _ => hP.pure s' _

theorem attempt_forM {f : α → Attempt PUnit} (hf : ∀ a s, P s (f a).run) (as : List α)
    (s : State) : P s (as.forM f).run := by
  induction as generalizing s with
  | nil => exact hP.pure s _
  | cons a as ih => exact hP.attempt_seq (hf a s) fun _ s' _ => ih s'

/-! ### Nodes and values -/

variable {sink : Sink}

theorem makeAwaited (isPromise : Bool) (e : Option NodeId) (s : State) :
    P s (makeAwaited isPromise e) := by
  cases isPromise with
  | true => exact hP.map some (hP.make s _ _)
  | false => exact hP.pure s e

theorem makeDeclarator (name : String) (value : Option NodeId) (s : State) :
    P s (makeDeclarator name value) :=
  hP.seq (hP.make s _ _) fun _ s' _ => hP.make s' _ _

theorem makeVariable (name : String) (value : Option NodeId) (isLet : Bool) (s : State) :
    P s (makeVariable name value isLet) :=
  hP.seq (hP.makeDeclarator name value s) fun _ s' _ => hP.make s' _ _

theorem makeAssignment (name : String) (value : Option NodeId) (s : State) :
    P s (makeAssignment name value) :=
  hP.seq (hP.make s _ _) fun _ s' _ => hP.seq (hP.make s' _ _) fun _ s' _ => hP.make s' _ _

theorem declare (key : Key) (s : State) :
    P s (modify fun s => { s with register := s.register.declare key } : Step PUnit) :=
  hP.names s key _

theorem hoist (hsink : sink.Within Reads) (s : State) : P s (hoist sink) := by
  cases sink with
  | returned => exact hP.pure s _
  | discarded => exact hP.pure s _
  | binding key =>
      have hkey : Reads key := hsink key rfl
      refine hP.get (fun s' h => ?_) ?_
      · simp only [h.name?_eq hkey, h.isDeclared_eq hkey]
      · dsimp only
        split
        · exact hP.pure s _
        · split
          · exact hP.pure s _
          · exact hP.seq (hP.declare key s) fun _ s' _ =>
              hP.seq (hP.makeVariable _ _ _ s') fun _ s' _ => hP.pure s' _

theorem writeBinding {key : Key} (hkey : Reads key) (value : Option NodeId) (s : State) :
    P s (writeBinding key value) := by
  refine hP.get (fun s' h => by rw [h.entries key hkey]) ?_
  split
  · exact hP.make s _ _
  · have hconsume (statement : NodeId) (s : State) : P s (do
        modify fun s => { s with register := (s.register.declare key).consume key }
        return statement) :=
      -- Declaring a binding and counting a write of it are one step and two changes.
      hP.bind (x := do
          modify fun s => { s with register := s.register.declare key }
          modify fun s => { s with register := s.register.consume key })
        (hP.bind (hP.declare key s) (hP.names _ key _)) (hP.pure _ statement)
    split
    · exact hP.seq (hP.makeAssignment _ _ s) fun id s' _ => hconsume id s'
    · exact hP.seq (hP.makeVariable _ _ _ s) fun id s' _ => hconsume id s'

theorem write (hsink : sink.Within Reads) (c : Context) (e : Option NodeId) (isPromise : Bool)
    (s : State) : P s (write c e sink isPromise) := by
  cases sink with
  | returned =>
      exact hP.seq (hP.makeAwaited _ e s) fun _ s' _ => hP.seq (hP.make s' _ _) fun _ s' _ =>
        hP.pure s' _
  | binding key =>
      exact hP.seq (hP.makeAwaited _ e s) fun _ s' _ =>
        hP.seq (hP.writeBinding (hsink key rfl) _ s') fun _ s' _ => hP.pure s' _
  | discarded =>
      have hstatement : P s (do
          return [← makeStatement (← Unroll.makeAwaited isPromise e)] : Step (List NodeId)) :=
        hP.seq (hP.makeAwaited _ e s) fun _ s' _ => hP.seq (hP.make s' _ _) fun _ s' _ =>
          hP.pure s' _
      cases isPromise with
      | true => exact hstatement
      | false =>
          refine hP.get (fun s' h => by rw [h.tree]) ?_
          split
          · exact hP.pure s _
          · exact hstatement

theorem writeUndefined (hsink : sink.Within Reads) (c : Context) (s : State) :
    P s (writeUndefined c sink) := by
  cases sink with
  | returned => exact hP.pure s _
  | discarded => exact hP.pure s _
  | binding key => exact hP.seq (hP.make s _ _) fun _ s' _ => hP.write hsink c _ _ s'

theorem makeTry (tried handled : List NodeId) {reason : Key} (hreason : Reads reason)
    (s : State) : P s (makeTry tried handled reason) := by
  refine hP.seq (hP.make s _ _) fun block s _ => ?_
  refine hP.get (fun s' h => by rw [h.name?_eq hreason]) ?_
  refine hP.seq (hP.declare reason s) fun _ s₁ _ => ?_
  have hrest (binding : Option NodeId) (s : State) : P s (do
      let handler ← makeBlock handled
      let clause ← Unroll.make (.catchClause binding (some handler))
      Unroll.make (.tryStatement (some block) (some clause) none)) :=
    hP.seq (hP.make s _ _) fun _ s' _ => hP.seq (hP.make s' _ _) fun _ s' _ => hP.make s' _ _
  cases s.register.name? reason with
  | none => exact hP.seq (hP.pure s₁ none) fun binding s' _ => hrest binding s'
  | some name =>
      exact hP.seq (hP.map some (hP.makeDeclarator name none s₁)) fun binding s' _ =>
        hrest binding s'

/-! ### Handlers -/

theorem keepStatement (c : Context) (statement : NodeId) (s : State) :
    P s (keepStatement c statement sink).run := by
  refine hP.attempt_get (fun s' h => by simp only [h.tree]) ?_
  dsimp only
  split
  · split
    · exact hP.failure_bind s _
    · split
      · refine hP.attempt_seq (hP.attempt_forM (fun id s => hP.lift ?_) _ s) fun _ s' _ =>
          hP.pure s' _
        exact hP.awaits s c id
      · exact hP.pure s _
  · exact hP.pure s _

end Modular

namespace Modular

variable {P : ∀ {α : Type}, State → Step α → Prop} {c : Context} {sink : Sink} {s : State}
  {limit : Nat} {inner : Unroller} (hP : Modular c.oracle Reads Marks P)
  {S : Scope c.oracle c.bindings Reads Marks} (hinner : S.Over P limit inner)
  (hlimit : S.Follows limit) (hs : S.Sees s.tree) (hsink : sink.Within Reads)
include hP hinner hlimit hs hsink

theorem unrollNested {e : NodeId} (he : S.Nests c.nesting e) :
    P s (unrollNested inner c e sink).run := by
  unfold Unroll.unrollNested
  split
  · exact hP.failure s
  · next nesting hnesting =>
    rw [hnesting] at he
    refine hP.attempt_seq (hP.lift (hP.marks s (S.marks he))) fun _ s' hgrow => hP.lift ?_
    exact hinner _ _ _ s' rfl rfl (S.evolves hs hgrow) (S.chain hlimit he) ⟨nofun, hsink⟩

theorem unrollValue {e : NodeId}
    (he : Chain.isChain s.tree c.oracle (some e) = true → S.Nests c.nesting e) :
    P s (unrollValue inner c e sink).run := by
  refine hP.attempt_get (fun s' h => by simp only [h.tree]) ?_
  dsimp only
  split
  · next hchain => exact hP.unrollNested hinner hlimit hs hsink (he hchain)
  · exact hP.lift (hP.write hsink c _ _ s)

theorem unrollStatements {statements : List NodeId}
    (hchains : ∀ u, s.tree.Evolves u → ∀ statement ∈ statements, ∀ e,
      u.data? statement = some (.leave .returns (some e)) ∨
        u.data? statement = some (.expressionStatement .statement (some e)) →
      Chain.isChain u c.oracle (some e) = true → S.Nests c.nesting e) :
    P s (unrollStatements inner c sink statements).run := by
  induction statements generalizing s with
  | nil => exact hP.lift (hP.writeUndefined hsink c s)
  | cons statement rest ih =>
      have hfirst := hchains s.tree (.refl s.tree) statement List.mem_cons_self
      -- The rest is met in later trees, of which the hypothesis speaks as well.
      have hrest (s' : State) (hgrow : s.tree.Evolves s'.tree) :
          P s' (Unroll.unrollStatements inner c sink rest).run :=
        ih (S.evolves hs hgrow) fun u hgrow' x hx =>
          hchains u (hgrow.trans hgrow') x (List.mem_cons_of_mem _ hx)
      have hthen (first : List NodeId) (s' : State) (hgrow : s.tree.Evolves s'.tree) : P s' (do
          return first ++ (← Unroll.unrollStatements inner c sink rest) :
            Attempt (List NodeId)).run :=
        hP.attempt_seq (hrest s' hgrow) fun _ s' _ => hP.pure s' _
      refine hP.attempt_get (fun s' h => by simp only [h.tree]) ?_
      dsimp only
      split
      · exact hrest s (.refl s.tree)
      · next e hdata => exact hP.unrollValue hinner hlimit hs hsink (hfirst e (.inl hdata))
      · split
        · exact hP.attempt_seq (hP.lift (hP.make s _ _)) fun _ s' _ => hP.pure s' _
        · exact hP.lift (hP.writeUndefined hsink c s)
      · next data _ _ hdata =>
        split
        · next e hchain =>
          split at hchain
          · obtain ⟨hischain, heq⟩ := Option.ite_none_right_eq_some.mp hchain
            obtain rfl := Option.some.inj heq
            have hnests := hfirst _ (.inr hdata) hischain
            exact hP.attempt_seq
              (hP.unrollNested hinner hlimit hs .discarded hnests) hthen
          · cases hchain
        · exact hP.attempt_seq (hP.keepStatement c statement s) fun _ => hthen _

theorem unrollLiteral {function : NodeId} {role : Naming.Role}
    (hsite : S.Handles c.nesting ⟨.literal function, role⟩) :
    P s (unrollLiteral inner c function sink).run := by
  refine hP.attempt_get (fun s' h => by simp only [h.tree]) ?_
  dsimp only
  split
  · next kind f hdata =>
    have hbodyOf : Chain.bodyOf? s.tree function = f.body := by rw [Chain.bodyOf?, hdata]
    split
    · exact hP.failure_bind s _
    · split
      · next list hlist =>
        obtain ⟨body, hbody, hlist⟩ := Option.bind_eq_some_iff.mp hlist
        refine hP.unrollStatements hinner hlimit hs hsink ?_
        intro u hgrow statement hmem e hd hchain
        refine S.nests (S.evolves hs hgrow) hsite (Naming.mem_handlerChains.mpr ⟨hchain, body, ?_,
          .inr ⟨list, ?_, statement, hmem, hd⟩⟩)
        · rw [Chain.bodyOf?, hgrow.data? hdata nofun]
          exact hbody
        · rw [hgrow.statements? (Tree.lt_size_of_statements? hlist), hlist]
      · next hnone =>
        split
        · next e he =>
          rw [he, Option.bind_some] at hnone
          refine hP.unrollValue hinner hlimit hs hsink fun hchain => ?_
          exact S.nests hs hsite (Naming.mem_handlerChains.mpr
            ⟨hchain, e, hbodyOf.trans he, .inl ⟨hnone, rfl⟩⟩)
        · exact hP.lift (hP.write hsink c none false s)
  · exact hP.failure s

theorem unrollHandler {handler : Handler} {role : Naming.Role} {argument : Option Key}
    (hsite : S.Handles c.nesting ⟨handler, role⟩)
    (hargument : ∀ key, argument = some key → Reads key) :
    P s (unrollHandler inner c handler argument sink).run := by
  cases handler with
  | named name =>
      refine hP.attempt_get (fun s' h => ?_) ?_
      · cases argument with
        | none => rfl
        | some key => simp only [Option.bind_some, h.name?_eq (hargument key rfl)]
      · refine hP.attempt_seq (hP.attempt_mapM (fun text s => hP.lift (hP.make s _ _)) _ s)
          fun _ s' _ => ?_
        exact hP.attempt_seq (hP.lift (hP.make s' _ _)) fun _ s' _ =>
          hP.lift (hP.write hsink c _ true s')
  | literal function => exact hP.unrollLiteral hinner hlimit hs hsink hsite
  | absent => exact hP.failure s
  | unsupported e => exact hP.failure s

/-! ### Links -/

variable {callee : NodeId} {outlet : Outlet} (hcallee : S.Links limit c.nesting (some callee))
  (houtlet : outlet.Within Reads)
include hcallee houtlet

theorem unrollCatch {handler : Handler} (hsite : S.Handles c.nesting ⟨handler, .rejection⟩) :
    P s (unrollCatch inner c callee handler outlet sink).run := by
  refine hP.attempt_get (fun s' h => by simp only [h.tree]) ?_
  refine hP.orFail_bind fun reason hreason => ?_
  have hreads : Reads reason := S.reads hs hsite hreason
  refine hP.attempt_seq (hP.lift (hP.hoist hsink s)) fun hoisted s₁ hgrow₁ => ?_
  have hs₁ := S.evolves hs hgrow₁
  refine hP.attempt_seq (hP.lift (hinner _ _ _ s₁ rfl rfl hs₁ hcallee houtlet))
    fun tried s₂ hgrow₂ => ?_
  refine hP.attempt_seq (hP.unrollHandler hinner hlimit (S.evolves hs₁ hgrow₂) hsink hsite
    fun key heq => Option.some.inj heq ▸ hreads) fun handled s₃ _ => ?_
  exact hP.attempt_seq (hP.lift (hP.makeTry tried handled hreads s₃)) fun _ s' _ => hP.pure s' _

theorem unrollThen {handler : Handler} (hsite : S.Handles c.nesting ⟨handler, .fulfillment⟩) :
    P s (unrollThen inner c callee handler outlet sink).run := by
  refine hP.attempt_get (fun s' h => by simp only [h.tree]) ?_
  refine hP.orFail_bind fun argument hvalue => ?_
  have hargument (key : Key) (heq : argument = some key) : Reads key :=
    S.reads hs hsite (by rw [siteKey?, hvalue, heq]; rfl)
  refine hP.attempt_seq (hP.lift (hinner _ _ _ s rfl rfl hs hcallee ⟨hargument, houtlet.final⟩))
    fun before s₁ hgrow₁ => ?_
  exact hP.attempt_seq (hP.unrollHandler hinner hlimit (S.evolves hs hgrow₁) hsink hsite hargument)
    fun _ s' _ => hP.pure s' _

theorem unrollBoth {handler onRejected : Handler}
    (hsite : S.Handles c.nesting ⟨handler, .fulfillment⟩)
    (hrejected : S.Handles c.nesting ⟨onRejected, .rejection⟩) :
    P s (unrollBoth inner c callee handler onRejected outlet sink).run := by
  refine hP.attempt_get (fun s' h => by simp only [h.tree]) ?_
  refine hP.orFail_bind fun argument hvalue => ?_
  refine hP.orFail_bind fun reason hreason => ?_
  have hargument (key : Key) (heq : argument = some key) : Reads key :=
    S.reads hs hsite (by rw [siteKey?, hvalue, heq]; rfl)
  have hreads : Reads reason := S.reads hs hrejected hreason
  refine hP.attempt_seq (hP.lift (hP.hoist hsink s)) fun hoisted s₁ hgrow₁ => ?_
  have hs₁ := S.evolves hs hgrow₁
  refine hP.attempt_seq (hP.lift (hinner _ _ _ s₁ rfl rfl hs₁ hcallee ⟨hargument, houtlet.final⟩))
    fun before s₂ hgrow₂ => ?_
  have hs₂ := S.evolves hs₁ hgrow₂
  let inside : Context := { c with inTry := true }
  have hafter : P s₂ (Unroll.unrollHandler inner inside handler argument sink).run :=
    unrollHandler (c := inside) hP hinner hlimit hs₂ hsink hsite hargument
  refine hP.attempt_seq hafter fun after s₃ hgrow₃ => ?_
  refine hP.attempt_seq (hP.unrollHandler hinner hlimit (S.evolves hs₂ hgrow₃) hsink hrejected
    fun key heq => Option.some.inj heq ▸ hreads) fun handled s₄ _ => ?_
  exact hP.attempt_seq (hP.lift (hP.makeTry _ handled hreads s₄)) fun _ s' _ => hP.pure s' _

end Modular

namespace Modular

variable {P : ∀ {α : Type}, State → Step α → Prop}

section

variable {c : Context} {e : Option NodeId} {outlet : Outlet} {s : State}
  (hP : Modular c.oracle Reads Marks P)
include hP

/-- The sink of a link depends on the links that are marked. -/
theorem sinkOf_bind {link : Option NodeId} {f : Sink → Step β}
    (h : P s (f (outlet.sink (link.any s.successors.has)))) : P s (sinkOf link outlet >>= f) :=
  hP.bind (hP.get (fun s' h => by rw [h.successors]) (hP.pure s _)) h

theorem attempt_sinkOf_bind {link : Option NodeId} {f : Sink → Attempt β}
    (h : P s (f (outlet.sink (link.any s.successors.has))).run) :
    P s (liftM (sinkOf link outlet) >>= f : Attempt β).run :=
  hP.sinkOf_bind (f := fun sink => (f sink).run) h

/-! ### Chains -/

variable (houtlet : outlet.Within Reads)
include houtlet

theorem keepLink (e : Option NodeId) : P s (keepLink c e outlet) := by
  refine hP.get (fun s' h => by rw [h.tree]) (hP.sinkOf_bind ?_)
  exact hP.write (houtlet.sink _) c _ true s

variable {limit : Nat} {inner : Unroller} {S : Scope c.oracle c.bindings Reads Marks}
  (hinner : S.Over P limit inner) (hlimit : S.Follows limit) (hs : S.Sees s.tree)
  (he : S.Links (limit + 1) c.nesting e)
include hinner hlimit hs he

theorem unrollLink : P s (unrollLink inner c e outlet).run := by
  refine hP.attempt_get (fun s' h => by simp only [h.tree]) ?_
  have hsink := houtlet.sink ((s.tree.skipParentheses e).any s.successors.has)
  obtain ⟨hfulfills, hrejects⟩ := S.handlers hs he
  have honward {part : Option NodeId} :
      (Chain.linkOf s.tree c.oracle (s.tree.skipParentheses e)).onward? = some part →
        S.Links limit c.nesting part :=
    S.onward hs he
  refine hP.attempt_sinkOf_bind ?_
  split
  · next callee receiver onFulfilled onRejected hlink =>
    rw [hlink] at hfulfills hrejects honward
    have hcallee := honward rfl
    split
    · exact hP.lift (hinner _ _ _ s rfl rfl hs hcallee houtlet)
    · exact hP.unrollCatch hinner hlimit hs hsink hcallee houtlet hrejects
    · exact hP.unrollThen hinner hlimit hs hsink hcallee houtlet hfulfills
    · exact hP.unrollBoth hinner hlimit hs hsink hcallee houtlet hfulfills hrejects
  · next callee receiver onRejected hlink =>
    rw [hlink] at hrejects honward
    exact hP.unrollCatch hinner hlimit hs hsink (honward rfl) houtlet hrejects
  · next receiver hlink =>
    rw [hlink] at honward
    exact hP.lift (hinner _ _ _ s rfl rfl hs (honward rfl) houtlet)
  · exact hP.failure s
  · exact hP.lift (hP.write hsink c _ true s)
  · exact hP.lift (hP.write hsink c _ false s)

end

/-- However deep chains of the scope are unrolled, the property holds of it. -/
theorem unroll (hP : Modular o Reads Marks P) (S : Scope o b Reads Marks) {depth : Nat}
    (hdepth : S.Follows depth) : S.Over P depth (unroll depth) := by
  induction depth with
  | zero =>
      rintro c e outlet s rfl rfl - - houtlet
      exact hP.keepLink houtlet e
  | succ depth ih =>
      rintro c e outlet s rfl rfl hs he houtlet
      have hdepth' := S.follows hdepth
      refine hP.seq (hP.attempt (hP.unrollLink houtlet (ih hdepth') hdepth' hs he))
        fun result s' _ => ?_
      cases result with
      | some statements => exact hP.pure s' statements
      | none => exact hP.keepLink houtlet e

theorem unrollChain {c : Context} (hP : Modular c.oracle Reads Marks P)
    (S : Scope c.oracle c.bindings Reads Marks) (hdepth : S.Follows (Limits.chainLinks - 1))
    {e : NodeId} {sink : Sink} {s : State} (hs : S.Sees s.tree)
    (he : S.Links Limits.chainLinks c.nesting (some e)) (hsink : sink.Within Reads) :
    P s (unrollChain c e sink) := by
  have houtlet : ({ final := sink } : Outlet).Within Reads := ⟨nofun, hsink⟩
  refine hP.seq (hP.attempt (hP.unrollLink houtlet (hP.unroll S hdepth) hdepth hs he))
    fun result s' _ => ?_
  cases result with
  | some statements => exact hP.pure s' _
  | none => exact hP.seq (hP.keepLink houtlet _) fun _ s' _ => hP.pure s' _

end Modular

end Unroll

end Unchain
