import Unchain.Grammar.SourceFile
import Unchain.Proofs.Syntax.Growth
import Unchain.Proofs.Token.Position

/-!
# Progress of a reader

A reader of a text never goes back (`Reached`). A rule that it calls before it
has passed a token has a smaller rank, and after it has passed one it may call
any rule, so eight times the characters left plus the rank of a rule goes down
from call to call (`Serves`).

`Goes` says that a step answers if the rules of rank below `c` do: the other
definitions are its three uses. There is one lemma for every way to put steps
together, and then one for every elementary step; the rules follow in modules
of their own. A step that gives nothing has run out of a bound, so this is where
it is seen that no bound is ever reached.
-/

namespace Unchain.Grammar

open Syntax (Data Flags NodeId Tree)
open Token (Kind Scanner)

/-! ### States of a reader -/

/-- What a step can see before it decides which token it accepts. -/
structure Spot where
  kind : Kind
  context : Context

/-- Where the reader is. -/
def State.spot (s : State) : Spot := ⟨s.scanner.cursor.kind, s.context⟩

/-- How many characters there are from the current token on. -/
def State.left (s : State) : Nat := s.scanner.cursor.tokenRest.length

/-- A reader on a token of its text, with a limit that exceeds the text. -/
structure Sound (s : State) : Prop where
  onToken : s.scanner.cursor.OnToken s.text
  limit : s.text.length < s.limit

/-- `s'` is where `s` is or further on in the same text, in the same nesting. -/
structure Reached (s s' : State) : Prop where
  sound : Sound s'
  text : s'.text = s.text
  limit : s'.limit = s.limit
  depth : s'.depth = s.depth
  context : s'.context = s.context
  skipTrivia : s'.scanner.skipTrivia = s.scanner.skipTrivia
  suffix : s'.scanner.cursor.tokenRest <:+ s.scanner.cursor.tokenRest
  grows : s.tree.Grows s'.tree

theorem Sound.reached {s : State} (h : Sound s) : Reached s s :=
  ⟨h, rfl, rfl, rfl, rfl, rfl, List.suffix_refl _, .refl _⟩

theorem Sound.left_lt_limit {s : State} (h : Sound s) : s.left < s.limit :=
  Nat.lt_of_le_of_lt h.onToken.tokenRest_suffix.length_le h.limit

theorem Sound.left_pos_iff {s : State} (h : Sound s) :
    0 < s.left ↔ s.spot.kind ≠ .endOfFile := by
  rw [State.left, List.length_pos_iff, State.spot, ne_eq, ne_eq, h.onToken.kind_eq_endOfFile_iff]

namespace Reached

variable {s s' s'' : State}

theorem trans (h : Reached s s') (h' : Reached s' s'') : Reached s s'' where
  sound := h'.sound
  text := h'.text.trans h.text
  limit := h'.limit.trans h.limit
  depth := h'.depth.trans h.depth
  context := h'.context.trans h.context
  skipTrivia := h'.skipTrivia.trans h.skipTrivia
  suffix := h'.suffix.trans h.suffix
  grows := h.grows.trans h'.grows

theorem left_le (h : Reached s s') : s'.left ≤ s.left := h.suffix.length_le

/-- A reader whose token starts elsewhere has passed one. -/
theorem left_lt_of_start_ne (h : Reached s s') (hs : Sound s)
    (hne : s'.scanner.cursor.start ≠ s.scanner.cursor.start) : s'.left < s.left :=
  hs.onToken.length_lt_of_start_ne (h.text ▸ h.sound.onToken) h.suffix hne

theorem left_eq_of_start_eq (h : Reached s s') (hs : Sound s)
    (heq : s'.scanner.cursor.start = s.scanner.cursor.start) : s'.left = s.left := by
  exact congrArg List.length (hs.onToken.tokenRest_eq_of_start_eq (h.text ▸ h.sound.onToken)
    h.suffix heq)

end Reached

/-! ### Ranks of rules -/

namespace Rule

/-- A rule calls others of smaller rank before it passes a token. A block that starts with its
brace calls none. -/
def rank : Rule → Kind → Nat
  | .templateRest, _ | .typeArguments, _ | .construction, _ | .bindingName, _ => 0
  | .union, _ | .leftHand, _ => 1
  | .type, _ | .unary, _ => 2
  | .resultType, _ | .binary _, _ => 3
  | .assignment, _ => 4
  | .expression, _ => 5
  | .statement, _ => 6
  | .block, k => if k = .openBrace then 0 else 7

/-- Rules that pass over their first token whatever it is are only for certain tokens. -/
def Suits : Rule → Kind → Prop
  | .templateRest, k => k = .templateHead
  | .construction, k => k = .newKeyword
  | _, _ => True

/-- Rules that are sure to pass a token. -/
def Passes : Rule → Kind → Prop
  | .templateRest, _ | .construction, _ => True
  | .typeArguments, k => k = .lessThan
  | .block, k => k = .openBrace
  | _, _ => False

end Rule

/-- What a call of a rule at a place costs is less than the bound. -/
def Rule.CostsBelow (bound : Nat) (rule : Rule) (s : State) : Prop :=
  8 * s.left + rule.rank s.spot.kind < bound

/-- The rules answer wherever they cost less than `bound`. -/
def Serves (rules : Rules) (bound : Nat) : Prop :=
  ∀ (rule : Rule) (s : State), Sound s → rule.Suits s.spot.kind → rule.CostsBelow bound s →
    ∃ node s', (rules rule).run s = some (node, s') ∧ Reached s s' ∧
      (rule.Passes s.spot.kind → s'.left < s.left)

theorem Serves.mono {rules : Rules} {bound bound' : Nat} (h : Serves rules bound)
    (hb : bound' ≤ bound) : Serves rules bound' :=
  fun rule s hs hsuits hcost => h rule s hs hsuits (Nat.lt_of_lt_of_le hcost hb)

/-! ### Steps that answer -/

variable {α β σ : Type}

/-- From every place with `P`, if rules of rank below `c` are at hand there, the step answers and
goes back nowhere; if `N` holds of its answer it has passed a token. -/
def Goes (rules : Rules) (c : Nat) (P : Spot → Prop) (r : Reader α) (N : α → Prop) : Prop :=
  ∀ s : State, Sound s → Serves rules (8 * s.left + c) → P s.spot →
    ∃ a s', r.run s = some (a, s') ∧ Reached s s' ∧ (N a → s'.left < s.left)

/-- The step answers. -/
abbrev Reads (rules : Rules) (c : Nat) (P : Spot → Prop) (r : Reader α) : Prop :=
  Goes rules c P r fun _ => False

/-- The step answers and passes a token. -/
abbrev Passes (rules : Rules) (c : Nat) (P : Spot → Prop) (r : Reader α) : Prop :=
  Goes rules c P r fun _ => True

/-- The repetition goes on. -/
def Turn.Again : Turn σ → Prop
  | .again _ => True
  | .done _ => False

/-- The step of a repetition answers, and passes a token if the repetition goes on. -/
abbrev Turns (rules : Rules) (c : Nat) (P : Spot → Prop) (r : Reader (Turn σ)) : Prop :=
  Goes rules c P r Turn.Again

/-- The step answers and stays on its token; `I` holds of the place and its answer. -/
def Looks (rules : Rules) (c : Nat) (P : Spot → Prop) (r : Reader α) (I : Spot → α → Prop) : Prop :=
  ∀ s : State, Sound s → Serves rules (8 * s.left + c) → P s.spot →
    ∃ a s', r.run s = some (a, s') ∧ Reached s s' ∧ s'.spot = s.spot ∧ s'.left = s.left ∧
      I s.spot a

/-- The step answers and stays on its token. -/
abbrev Stays (rules : Rules) (c : Nat) (P : Spot → Prop) (r : Reader α) : Prop :=
  Looks rules c P r fun _ _ => True

/-- Every place. -/
def Anywhere (_ : Spot) : Prop := True

/-- A place on a token of a kind. -/
def On (k : Kind) (p : Spot) : Prop := p.kind = k

variable {rules : Rules} {c d : Nat} {P Q : Spot → Prop} {x r : Reader α} {f : α → Reader β}
  {M N : α → Prop} {N' : β → Prop} {I J : Spot → α → Prop} {k : Kind}

namespace Goes

theorem mono (h : Goes rules c P r N) (hcd : c ≤ d) (hP : ∀ p, Q p → P p) (hN : ∀ a, M a → N a) :
    Goes rules d Q r M := by
  intro s hs hr hp
  obtain ⟨a, s', hrun, hreached, hpass⟩ := h s hs (hr.mono (by omega)) (hP _ hp)
  exact ⟨a, s', hrun, hreached, fun ha => hpass (hN a ha)⟩

theorem on (h : Goes rules c P r N) (hQ : ∀ p, Q p → P p) : Goes rules c Q r N :=
  h.mono (Nat.le_refl c) hQ fun _ => id

theorem reads (h : Goes rules c P r N) : Reads rules c P r :=
  h.mono (Nat.le_refl c) (fun _ => id) fun _ => False.elim

theorem pureOn {a : α} (h : ∀ p, P p → ¬ N a) : Goes rules c P (pure a) N :=
  fun s hs _ hp => ⟨a, s, rfl, hs.reached, fun ha => (h _ hp ha).elim⟩

theorem pure {a : α} (h : ¬ N a) : Goes rules c P (pure a) N := pureOn fun _ _ => h

theorem absurd (h : ∀ p, ¬ P p) : Goes rules c P r N := fun _ _ _ hp => (h _ hp).elim

theorem pureBind {a : α} (h : Goes rules c P (f a) N') :
    Goes rules c P (Pure.pure a >>= f) N' := by
  rwa [pure_bind]

/-- One step after another, as long as both get by with the rules at hand. -/
theorem bind (hx : Goes rules c P x M) (hf : ∀ a, Goes rules c Anywhere (f a) N') :
    Goes rules c P (x >>= f) N' := by
  intro s hs hr hp
  obtain ⟨a, s₁, hrun₁, hreached₁, -⟩ := hx s hs hr hp
  have hle := hreached₁.left_le
  obtain ⟨b, s₂, hrun₂, hreached₂, hpass⟩ := hf a s₁ hreached₁.sound (hr.mono (by omega)) trivial
  refine ⟨b, s₂, ?_, hreached₁.trans hreached₂, fun hb => ?_⟩
  · rw [StateT.run_bind, hrun₁]
    exact hrun₂
  · have := hpass hb
    omega

/-- After a step that passes a token every rule is at hand, and a token has been passed. Where the
step need not pass one, the next gets by with less. -/
theorem cases (hx : Goes rules c P x M) (moved : ∀ a, M a → Reads rules 8 Anywhere (f a))
    (still : ∀ a, ¬ M a → Goes rules c Anywhere (f a) N') : Goes rules c P (x >>= f) N' := by
  intro s hs hr hp
  obtain ⟨a, s₁, hrun₁, hreached₁, hpass₁⟩ := hx s hs hr hp
  have hle := hreached₁.left_le
  have hrun : ∀ {b s₂}, (f a).run s₁ = some (b, s₂) → (x >>= f).run s = some (b, s₂) := by
    intro b s₂ hrun₂
    rw [StateT.run_bind, hrun₁]
    exact hrun₂
  by_cases ha : M a
  · have hlt := hpass₁ ha
    obtain ⟨b, s₂, hrun₂, hreached₂, -⟩ :=
      moved a ha s₁ hreached₁.sound (hr.mono (by omega)) trivial
    have := hreached₂.left_le
    exact ⟨b, s₂, hrun hrun₂, hreached₁.trans hreached₂, fun _ => by omega⟩
  · obtain ⟨b, s₂, hrun₂, hreached₂, hpass₂⟩ :=
      still a ha s₁ hreached₁.sound (hr.mono (by omega)) trivial
    refine ⟨b, s₂, hrun hrun₂, hreached₁.trans hreached₂, fun hb => ?_⟩
    have := hpass₂ hb
    omega

/-- After a step that passes a token every rule is at hand. -/
theorem passing (hx : Passes rules c P x) (hf : ∀ a, Reads rules 8 Anywhere (f a)) :
    Goes rules c P (x >>= f) N' :=
  hx.cases (fun a _ => hf a) fun _ h => (h trivial).elim

/-- What is seen without leaving the token is known in the next step. -/
theorem look (hx : Looks rules c P x I)
    (hf : ∀ a, Goes rules c (fun p => P p ∧ I p a) (f a) N') : Goes rules c P (x >>= f) N' := by
  intro s hs hr hp
  obtain ⟨a, s₁, hrun₁, hreached₁, hspot, hleft, hI⟩ := hx s hs hr hp
  obtain ⟨b, s₂, hrun₂, hreached₂, hpass⟩ :=
    hf a s₁ hreached₁.sound (by rwa [hleft]) (by rw [hspot]; exact ⟨hp, hI⟩)
  refine ⟨b, s₂, ?_, hreached₁.trans hreached₂, fun hb => by rw [← hleft]; exact hpass hb⟩
  rw [StateT.run_bind, hrun₁]
  exact hrun₂

theorem ite {b : Prop} [Decidable b] {y : Reader α} (hx : b → Goes rules c P x N)
    (hy : ¬ b → Goes rules c P y N) : Goes rules c P (if b then x else y) N := by
  split
  · next h => exact hx h
  · next h => exact hy h

/-- A step that is taken or left out before another. -/
theorem optional {b : Prop} [Decidable b] {y : Reader β} (hx : b → Goes rules c P x M)
    (hy : Goes rules c Anywhere y N') : Goes rules c P (if b then x >>= fun _ => y else y) N' :=
  .ite (fun h => (hx h).bind fun _ => hy) fun _ => hy.on fun _ _ => trivial

/-- One of two steps before another. -/
theorem either {b : Prop} [Decidable b] {y : Reader α} (hx : b → Reads rules c P x)
    (hy : ¬ b → Reads rules c P y) (hf : ∀ a, Goes rules c Anywhere (f a) N') :
    Goes rules c P (if b then x >>= f else y >>= f) N' :=
  .ite (fun h => (hx h).bind hf) fun h => (hy h).bind hf

/-- One of two ways to look ahead before another step. -/
theorem eitherLook {b : Prop} [Decidable b] {y : Reader α} (hx : b → Looks rules c P x I)
    (hy : ¬ b → Looks rules c P y I) (hf : ∀ a, Goes rules c (fun p => P p ∧ I p a) (f a) N') :
    Goes rules c P (if b then x >>= f else y >>= f) N' :=
  .ite (fun h => .look (hx h) hf) fun h => .look (hy h) hf

theorem map {g : α → β} (hx : Goes rules c P x M) (h : ∀ a, N' (g a) → M a) :
    Goes rules c P (g <$> x) N' := by
  intro s hs hr hp
  obtain ⟨a, s', hrun, hreached, hpass⟩ := hx s hs hr hp
  refine ⟨g a, s', ?_, hreached, fun ha => hpass (h a ha)⟩
  rw [StateT.run_map, hrun]
  rfl

/-- A call of a rule. -/
theorem rule (rule : Rule) (hsuits : ∀ p, P p → rule.Suits p.kind)
    (hrank : ∀ p, P p → rule.rank p.kind < c) :
    Goes rules c P (rules rule) fun _ => ∀ p, P p → rule.Passes p.kind := by
  intro s hs hr hp
  have hcost : rule.CostsBelow (8 * s.left + c) s := by
    have := hrank _ hp
    unfold Rule.CostsBelow
    omega
  obtain ⟨node, s', hrun, hreached, hpass⟩ := hr rule s hs (hsuits _ hp) hcost
  exact ⟨node, s', hrun, hreached, fun h => hpass (h _ hp)⟩

end Goes

namespace Looks

/-- A step that only asks something of the state. -/
theorem of_run (h : ∀ s : State, ∃ a, r.run s = some (a, s) ∧ I s.spot a) :
    Looks rules c P r I := by
  intro s hs _ _
  obtain ⟨a, hrun, hI⟩ := h s
  exact ⟨a, s, hrun, hs.reached, rfl, rfl, hI⟩

theorem mono (h : Looks rules c P r I) (hcd : c ≤ d) (hP : ∀ p, Q p → P p)
    (hI : ∀ p a, Q p → I p a → J p a) : Looks rules d Q r J := by
  intro s hs hr hp
  obtain ⟨a, s', hrun, hreached, hspot, hleft, ha⟩ := h s hs (hr.mono (by omega)) (hP _ hp)
  exact ⟨a, s', hrun, hreached, hspot, hleft, hI _ a hp ha⟩

theorem pure {a : α} (h : ∀ p, P p → I p a) : Looks rules c P (pure a) I :=
  fun s hs _ hp => ⟨a, s, rfl, hs.reached, rfl, rfl, h _ hp⟩

theorem look {I' : Spot → β → Prop} (hx : Looks rules c P x I)
    (hf : ∀ a, Looks rules c (fun p => P p ∧ I p a) (f a) I') : Looks rules c P (x >>= f) I' := by
  intro s hs hr hp
  obtain ⟨a, s₁, hrun₁, hreached₁, hspot₁, hleft₁, hI⟩ := hx s hs hr hp
  obtain ⟨b, s₂, hrun₂, hreached₂, hspot₂, hleft₂, hI'⟩ :=
    hf a s₁ hreached₁.sound (by rwa [hleft₁]) (by rw [hspot₁]; exact ⟨hp, hI⟩)
  refine ⟨b, s₂, ?_, hreached₁.trans hreached₂, hspot₂.trans hspot₁, hleft₂.trans hleft₁,
    hspot₁ ▸ hI'⟩
  rw [StateT.run_bind, hrun₁]
  exact hrun₂

theorem ite {b : Prop} [Decidable b] {y : Reader α} (hx : b → Looks rules c P x I)
    (hy : ¬ b → Looks rules c P y I) : Looks rules c P (if b then x else y) I := by
  split
  · next h => exact hx h
  · next h => exact hy h

theorem reads (h : Looks rules c P r I) : Reads rules c P r := by
  intro s hs hr hp
  obtain ⟨a, s', hrun, hreached, -⟩ := h s hs hr hp
  exact ⟨a, s', hrun, hreached, False.elim⟩

end Looks

theorem run_lookAhead {s s' : State} {a : α} (h : r.run s = some (a, s')) :
    (lookAhead r).run s = some (a, { s' with
      scanner := s'.scanner.restore s.scanner.save
      lastStop := s.lastStop
      errors := s'.errors.take s.errors.size }) := by
  simp [lookAhead, h]

/-- A step ahead leads back to its token. -/
theorem lookAhead_stays (h : Reads rules c P r) : Stays rules c P (lookAhead r) := by
  intro s hs hr hp
  obtain ⟨a, s', hrun, hreached, -⟩ := h s hs hr hp
  refine ⟨a, _, run_lookAhead hrun, ?_, ?_, rfl, trivial⟩
  · have hon : s.scanner.cursor.OnToken s'.text := hreached.text ▸ hs.onToken
    exact { hreached with
      sound := ⟨hon, hreached.sound.limit⟩
      suffix := List.suffix_refl _ }
  · simp only [State.spot, hreached.context, Scanner.restore, Scanner.save]

/-! ### Steps that stay on their token -/

section Looks

theorem get_stays : Stays rules c P get :=
  .of_run fun s => ⟨s, rfl, trivial⟩

theorem kind_looks : Looks rules c P kind fun p k => p.kind = k :=
  .of_run fun _ => ⟨_, rfl, rfl⟩

theorem at?_looks (k : Kind) : Looks rules c P (at? k) fun p b => b = true ↔ p.kind = k :=
  .of_run fun _ => ⟨_, rfl, decide_eq_true_iff⟩

theorem atAny?_looks (ks : List Kind) :
    Looks rules c P (atAny? ks) fun p b => b = true ↔ p.kind ∈ ks :=
  .of_run fun _ => ⟨_, rfl, List.contains_iff_mem⟩

theorem tokenPos_stays : Stays rules c P tokenPos :=
  .of_run fun _ => ⟨_, rfl, trivial⟩

theorem tokenStop_stays : Stays rules c P tokenStop :=
  .of_run fun _ => ⟨_, rfl, trivial⟩

theorem lastStop_stays : Stays rules c P lastStop :=
  .of_run fun _ => ⟨_, rfl, trivial⟩

theorem lineBreakBefore_stays : Stays rules c P lineBreakBefore :=
  .of_run fun _ => ⟨_, rfl, trivial⟩

theorem tokenValue_stays : Stays rules c P tokenValue :=
  .of_run fun _ => ⟨_, rfl, trivial⟩

theorem errorCount_stays : Stays rules c P errorCount :=
  .of_run fun _ => ⟨_, rfl, trivial⟩

theorem sourceText_stays (start stop : Nat) :
    Stays rules c P (sourceText start stop) :=
  .of_run fun _ => ⟨_, rfl, trivial⟩

theorem atWord?_looks (word : String) :
    Looks rules c P (atWord? word) fun p b => b = true → p.kind = .identifier :=
  .of_run fun _ => ⟨_, rfl, by simp [State.spot]; grind⟩

theorem canEndStatement_stays : Stays rules c P canEndStatement :=
  .of_run fun _ => ⟨_, rfl, trivial⟩

/-- A name that is bound or referred to can stand here. -/
def Spot.isName (p : Spot) : Bool :=
  p.kind.isIdentifierLike && !(p.kind = .yieldKeyword && p.context.yields) &&
    !(p.kind = .awaitKeyword && p.context.awaits)

theorem atIdentifier?_looks : Looks rules c P atIdentifier? fun p b => b = p.isName :=
  .of_run fun _ => ⟨_, rfl, rfl⟩

/-- A report changes nothing but the errors. -/
theorem run_errorHere (notice : Notice) (s : State) :
    ∃ errors, (errorHere notice).run s = some ((), { s with errors }) := by
  have hrun : (errorHere notice).run s = (errorAt s.scanner.cursor.start
    (s.scanner.cursor.stop - s.scanner.cursor.start) notice).run s := rfl
  rw [hrun]
  by_cases h : s.errors.back?.any (·.start = s.scanner.cursor.start)
  · exact ⟨s.errors, by simp [errorAt, h]⟩
  · exact ⟨_, by simp [errorAt, h]; rfl⟩

theorem errorHere_stays (notice : Notice) : Stays rules c P (errorHere notice) := by
  intro s hs _ _
  obtain ⟨errors, hrun⟩ := run_errorHere notice s
  exact ⟨(), _, hrun, { hs.reached with sound := ⟨hs.onToken, hs.limit⟩ }, rfl, rfl, trivial⟩

end Looks

/-! ### Nesting, context and repetition -/

theorem inContext_goes {g : Context → Context} (h : Goes rules c Q r N)
    (hPQ : ∀ p, P p → Q ⟨p.kind, g p.context⟩) : Goes rules c P (inContext g r) N := by
  intro s hs hr hp
  have hs' : Sound { s with context := g s.context } := ⟨hs.onToken, hs.limit⟩
  obtain ⟨a, s', hrun, hreached, hpass⟩ := h _ hs' hr (hPQ _ hp)
  refine ⟨a, { s' with context := s.context }, by simp [inContext, hrun], ?_, hpass⟩
  exact { hreached with sound := ⟨hreached.sound.onToken, hreached.sound.limit⟩, context := rfl }

theorem inContext_reads {g : Context → Context} (h : Reads rules c Anywhere r) :
    Reads rules c P (inContext g r) :=
  inContext_goes h fun _ _ => trivial

theorem nested_reads {r : Reader (Option Syntax.NodeId)} (h : Reads rules c P r) :
    Reads rules c P (nested r) := by
  intro s hs hr hp
  by_cases hd : s.depth ≥ Limits.grammarDepth
  · obtain ⟨⟨⟩, s', hrun, hreached, -⟩ := errorHere_stays .expressionExpected s hs hr hp
    exact ⟨none, s', by simp [nested, hd, hrun], hreached, False.elim⟩
  · have hs' : Sound { s with depth := s.depth + 1 } := ⟨hs.onToken, hs.limit⟩
    obtain ⟨a, s', hrun, hreached, -⟩ := h _ hs' hr hp
    refine ⟨a, { s' with depth := s'.depth - 1 }, by simp [nested, hd, hrun], ?_, False.elim⟩
    exact { hreached with
      sound := ⟨hreached.sound.onToken, hreached.sound.limit⟩
      depth := by rw [hreached.depth]; rfl }

/-- A repetition answers if each of its steps passes a token or is the last; the limit of the
reader exceeds the number of tokens. `D` is what the last step leaves behind. -/
theorem run_repeatUpTo {step : σ → Reader (Turn σ)} {D : State → Prop}
    (h : ∀ (value : σ) (s : State), Sound s → Serves rules (8 * s.left + c) →
      ∃ turn s', (step value).run s = some (turn, s') ∧ Reached s s' ∧
        (turn.Again → s'.left < s.left) ∧ (¬ turn.Again → D s'))
    {fuel : Nat} (value : σ) {s : State} (hs : Sound s) (hr : Serves rules (8 * s.left + c))
    (hfuel : s.left < fuel) :
    ∃ last s', (repeatUpTo step fuel value).run s = some (last, s') ∧ Reached s s' ∧ D s' := by
  induction fuel generalizing value s with
  | zero => omega
  | succ fuel ih =>
    obtain ⟨turn, s₁, hrun₁, hreached₁, hagain, hdone⟩ := h value s hs hr
    rw [repeatUpTo, StateT.run_bind, hrun₁]
    cases turn with
    | again value =>
      have := hagain trivial
      obtain ⟨last, s₂, hrun₂, hreached₂, hD⟩ :=
        ih value hreached₁.sound (hr.mono (by omega)) (by omega)
      exact ⟨last, s₂, hrun₂, hreached₁.trans hreached₂, hD⟩
    | done last => exact ⟨last, s₁, rfl, hreached₁, hdone id⟩

theorem repeating_reads {step : σ → Reader (Turn σ)} {value : σ}
    (h : ∀ value, Turns rules c Anywhere (step value)) :
    Reads rules c P (repeating value step) := by
  intro s hs hr _
  obtain ⟨last, s', hrun, hreached, -⟩ :=
    run_repeatUpTo (D := fun _ => True) (fun value s hs hr => by
      obtain ⟨turn, s', hrun, hreached, hpass⟩ := h value s hs hr trivial
      exact ⟨turn, s', hrun, hreached, hpass, fun _ => trivial⟩) value hs hr hs.left_lt_limit
  exact ⟨last, s', by simpa [repeating] using hrun, hreached, False.elim⟩

/-- Adding a node leaves the reader where it is. -/
theorem makeBetween_stays (data : Data) (pos stop : Nat) (flags : Flags) :
    Stays rules c P (makeBetween data pos stop flags) := by
  intro s hs _ _
  refine ⟨_, _, rfl, ?_, rfl, rfl, trivial⟩
  exact { hs.reached with sound := ⟨hs.onToken, hs.limit⟩, grows := Tree.Grows.add .. }

/-! ### Steps that pass their token -/

/-- A reader that accepts a token, or the start of its text, stands on a token after it. -/
theorem sound_advance {s : State} (hends : s.scanner.cursor.EndsIn s.text)
    (hlimit : s.text.length < s.limit) :
    Sound { s with lastStop := s.scanner.cursor.stop, scanner := s.scanner.scan } :=
  ⟨(Scanner.onToken_scan hends).1, hlimit⟩

/-- Accepting a token passes it, unless the text ends there. -/
theorem run_advance {s : State} (hs : Sound s) :
    ∃ s', advance.run s = some ((), s') ∧ Reached s s' ∧
      (s.spot.kind ≠ .endOfFile → s'.left < s.left) := by
  obtain ⟨-, hsuffix⟩ := Scanner.onToken_scan hs.onToken.endsIn
  refine ⟨_, rfl, ?_, fun h => ?_⟩
  · exact { hs.reached with
      sound := sound_advance hs.onToken.endsIn hs.limit
      skipTrivia := Scanner.scan_skipTrivia _
      suffix := hsuffix.trans hs.onToken.rest_suffix }
  · have := hs.onToken.length_rest_lt h
    have := hsuffix.length_le
    unfold State.left
    dsimp only
    omega

theorem advance_goes : Goes rules c P advance fun _ => ∀ p, P p → p.kind ≠ .endOfFile := by
  intro s hs _ hp
  obtain ⟨s', hrun, hreached, hpass⟩ := run_advance hs
  exact ⟨(), s', hrun, hreached, fun h => hpass (h _ hp)⟩

theorem advance_reads : Reads rules c P advance := advance_goes.reads

theorem advance_passes (h : ∀ p, P p → p.kind ≠ .endOfFile) : Passes rules c P advance :=
  advance_goes.mono (Nat.le_refl c) (fun _ => id) fun _ _ => h

/-- Reading the token again leaves the reader where it is, on a token of another kind perhaps. -/
theorem reached_rescan {g : Scanner → Scanner} (hg : Scanner.Rescans g) {s : State} (hs : Sound s) :
    Reached s { s with scanner := g s.scanner } :=
  { hs.reached with
    sound := ⟨hg.onToken hs.onToken, hs.limit⟩
    skipTrivia := hg.skipTrivia _
    suffix := (hg.tokenRest _).symm ▸ List.suffix_refl _ }

theorem rescan_reads {g : Scanner → Scanner} (hg : Scanner.Rescans g) :
    Reads rules c P (rescan g) :=
  fun _ hs _ _ => ⟨(), _, rfl, reached_rescan hg hs, False.elim⟩

/-- If a step may leave its token where it was, the next one has to pass it. -/
theorem Goes.since {x : Nat → Reader α} {y : Nat → α → Nat → Reader β}
    (hP : ∀ p, P p → p.kind ≠ .endOfFile) (hx : ∀ before, Reads rules c P (x before))
    (moved : ∀ before a now, now ≠ before → Reads rules 8 Anywhere (y before a now))
    (stuck : ∀ before a, Goes rules c (fun p => p.kind ≠ .endOfFile) (y before a before) N') :
    Goes rules c P (do
      let before ← tokenPos
      let a ← x before
      let now ← tokenPos
      y before a now) N' := by
  intro s hs hr hp
  obtain ⟨a, s₁, hrun₁, hreached₁, -⟩ := hx s.scanner.cursor.start s hs hr hp
  have hrun : ∀ {b s₂}, (y s.scanner.cursor.start a s₁.scanner.cursor.start).run s₁ = some (b, s₂) →
      (do
        let before ← tokenPos
        let a ← x before
        let now ← tokenPos
        y before a now).run s = some (b, s₂) := by
    intro b s₂ hrun₂
    have hpos (s : State) : tokenPos.run s = some (s.scanner.cursor.start, s) := rfl
    simp [hpos, hrun₁, hrun₂]
  by_cases hmoved : s₁.scanner.cursor.start = s.scanner.cursor.start
  · have hleft := hreached₁.left_eq_of_start_eq hs hmoved
    have hk : s₁.spot.kind ≠ .endOfFile := by
      rw [← hreached₁.sound.left_pos_iff, hleft, hs.left_pos_iff]
      exact hP _ hp
    obtain ⟨b, s₂, hrun₂, hreached₂, hpass⟩ :=
      stuck s.scanner.cursor.start a s₁ hreached₁.sound (by rwa [hleft]) hk
    exact ⟨b, s₂, hrun (hmoved ▸ hrun₂), hreached₁.trans hreached₂, by rwa [← hleft]⟩
  · have hlt := hreached₁.left_lt_of_start_ne hs hmoved
    obtain ⟨b, s₂, hrun₂, hreached₂, -⟩ :=
      moved _ a _ hmoved s₁ hreached₁.sound (hr.mono (by omega)) trivial
    have := hreached₂.left_le
    exact ⟨b, s₂, hrun hrun₂, hreached₁.trans hreached₂, fun _ => by omega⟩

/-- Where a token is read again the text does not end, before and after. -/
theorem Goes.rescan {g : Scanner → Scanner} {y : Unit → Reader α} (hg : Scanner.Rescans g)
    (hP : ∀ p, P p → p.kind ≠ .endOfFile)
    (hy : Goes rules c (fun p => p.kind ≠ .endOfFile) (y ()) N) :
    Goes rules c P (Grammar.rescan g >>= y) N := by
  intro s hs hr hp
  obtain ⟨⟨⟩, s', hrun, hreached, -⟩ := rescan_reads hg s hs hr hp
  have hleft : s'.left = s.left := by
    obtain rfl : _ = s' := (Prod.mk.inj (Option.some.inj hrun)).2
    exact congrArg List.length (hg.tokenRest _)
  have hk : s'.spot.kind ≠ .endOfFile := by
    rw [← hreached.sound.left_pos_iff, hleft, hs.left_pos_iff]
    exact hP _ hp
  obtain ⟨a, s'', hrun', hreached', hpass⟩ := hy s' hreached.sound (by rwa [hleft]) hk
  refine ⟨a, s'', ?_, hreached.trans hreached', fun ha => by rw [← hleft]; exact hpass ha⟩
  rw [StateT.run_bind, hrun]
  exact hrun'

/-- The step passes the token if it is of a kind, and tells whether it did. -/
def Tries (k : Kind) (x : Reader Bool) : Prop :=
  ∀ s : State, Sound s → ∃ s', x.run s = some (decide (s.spot.kind = k), s') ∧ Reached s s' ∧
    if s.spot.kind = k then s'.left < s.left else s'.spot = s.spot ∧ s'.left = s.left

theorem accept_tries (hk : k ≠ .endOfFile) : Tries k (accept k) := by
  intro s hs
  have hat : (at? k).run s = some (decide (s.spot.kind = k), s) := rfl
  by_cases h : s.spot.kind = k
  · obtain ⟨s', hrun, hreached, hpass⟩ := run_advance hs
    exact ⟨s', by simp [accept, hat, h, hrun], hreached, by simpa [h] using hpass (h ▸ hk)⟩
  · exact ⟨s, by simp [accept, hat, h], hs.reached, by simp [h]⟩

theorem expect_tries (hk : k ≠ .endOfFile) : Tries k (expect k) := by
  intro s hs
  obtain ⟨s₁, hrun₁, hreached₁, hif⟩ := accept_tries hk s hs
  by_cases h : s.spot.kind = k
  · exact ⟨s₁, by simp [expect, hrun₁, h], hreached₁, hif⟩
  · rw [if_neg h] at hif
    obtain ⟨errors, hrun₂⟩ := run_errorHere (.tokenExpected (k.spelling?.getD "token")) s₁
    have hs₁ := hreached₁.sound
    refine ⟨{ s₁ with errors }, by simp [expect, hrun₁, h, hrun₂],
      { hreached₁ with sound := ⟨hs₁.onToken, hs₁.limit⟩ }, ?_⟩
    rw [if_neg h]
    exact hif

namespace Tries

variable {x : Reader Bool} {A B : Reader α}

theorem goes (hx : Tries k x) : Goes rules c P x fun b => b = true ∨ ∀ p, P p → p.kind = k := by
  intro s hs _ hp
  obtain ⟨s', hrun, hreached, hif⟩ := hx s hs
  refine ⟨_, s', hrun, hreached, fun h => ?_⟩
  have hk : s.spot.kind = k := h.elim of_decide_eq_true fun h => h _ hp
  rwa [if_pos hk] at hif

theorem reads (hx : Tries k x) : Reads rules c P x := hx.goes.reads

/-- On a token of the kind the step passes it. -/
theorem passes (hx : Tries k x) (h : ∀ p, P p → p.kind = k) : Passes rules c P x :=
  hx.goes.mono (Nat.le_refl c) (fun _ => id) fun _ _ => .inr h

/-- If the step passes the token every rule is at hand, and if it does not the token is of another
kind. -/
theorem bind {y : Bool → Reader α} (hx : Tries k x) (htrue : Reads rules 8 Anywhere (y true))
    (hfalse : Goes rules c (fun p => P p ∧ p.kind ≠ k) (y false) N) :
    Goes rules c P (x >>= y) N := by
  intro s hs hr hp
  obtain ⟨s₁, hrun₁, hreached₁, hif⟩ := hx s hs
  by_cases hk : s.spot.kind = k
  · rw [if_pos hk] at hif
    obtain ⟨a, s₂, hrun₂, hreached₂, -⟩ := htrue s₁ hreached₁.sound (hr.mono (by omega)) trivial
    have := hreached₂.left_le
    exact ⟨a, s₂, by simp [hrun₁, hk, hrun₂], hreached₁.trans hreached₂, fun _ => by omega⟩
  · rw [if_neg hk] at hif
    obtain ⟨a, s₂, hrun₂, hreached₂, hpass⟩ :=
      hfalse s₁ hreached₁.sound (by rwa [hif.2]) (by rw [hif.1]; exact ⟨hp, hk⟩)
    exact ⟨a, s₂, by simp [hrun₁, hk, hrun₂], hreached₁.trans hreached₂, by rwa [← hif.2]⟩

/-- A step that starts with the token: it is there, or what comes next gets by without it. -/
theorem starting {y : Bool → Reader α} (hx : Tries k x) (hy : ∀ b, Reads rules d Anywhere (y b))
    (h : d ≤ c ∨ ∀ p, P p → p.kind = k) (hd : d ≤ 8) :
    Goes rules c P (x >>= y) fun _ => ∀ p, P p → p.kind = k := by
  intro s hs hr hp
  obtain ⟨b, s₁, hrun₁, hreached₁, hpass₁⟩ := hx.goes s hs hr hp
  have hle := hreached₁.left_le
  have hserves : Serves rules (8 * s₁.left + d) := by
    rcases h with h | h
    · exact hr.mono (by omega)
    · have := hpass₁ (.inr h)
      exact hr.mono (by omega)
  obtain ⟨a, s₂, hrun₂, hreached₂, -⟩ := hy b s₁ hreached₁.sound hserves trivial
  have hle₂ := hreached₂.left_le
  refine ⟨a, s₂, ?_, hreached₁.trans hreached₂, fun h => ?_⟩
  · rw [StateT.run_bind, hrun₁]
    exact hrun₂
  · have := hpass₁ (.inr h)
    omega

theorem ite (hx : Tries k x) (hA : Reads rules 8 Anywhere A)
    (hB : Goes rules c (fun p => P p ∧ p.kind ≠ k) B N) :
    Goes rules c P (x >>= fun b => if b = true then A else B) N :=
  hx.bind hA hB

theorem ite_not (hx : Tries k x) (hA : Reads rules 8 Anywhere A)
    (hB : Goes rules c (fun p => P p ∧ p.kind ≠ k) B N) :
    Goes rules c P (x >>= fun b => if (!b) = true then B else A) N :=
  hx.bind hA hB

/-- Something that follows the token if it is there, before another step. -/
theorem optional {y : Reader Unit} (hx : Tries k x) (hc : c ≤ 8)
    (hy : Reads rules 8 Anywhere y) (hA : Goes rules c Anywhere A N) :
    Goes rules c P (x >>= fun b => if b = true then y >>= fun _ => A else A) N :=
  hx.bind (hy.bind fun _ => hA.reads.mono hc (fun _ => id) fun _ => id)
    (hA.on fun _ _ => trivial)

end Tries

/-! ### Calls of rules -/

theorem rule_reads (rule : Rule) (n : Nat) (hsuits : ∀ k, rule.Suits k)
    (hrank : ∀ k, rule.rank k ≤ n) : Reads rules (c + n + 1) P (rules rule) :=
  (Goes.rule rule (fun _ _ => hsuits _) fun p _ => by have := hrank p.kind; omega).reads

theorem rule_passes (rule : Rule) (hsuits : ∀ p, P p → rule.Suits p.kind)
    (hrank : ∀ p, P p → rule.rank p.kind < c) (hpass : ∀ p, P p → rule.Passes p.kind) :
    Passes rules c P (rules rule) :=
  (Goes.rule rule hsuits hrank).mono (Nat.le_refl c) (fun _ => id) fun _ _ => hpass

theorem rules_templateRest (h : ∀ p, P p → p.kind = .templateHead) :
    Passes rules (c + 1) P (rules .templateRest) :=
  rule_passes _ h (fun _ _ => Nat.succ_pos c) fun _ _ => trivial

theorem rules_construction (h : ∀ p, P p → p.kind = .newKeyword) :
    Passes rules (c + 1) P (rules .construction) :=
  rule_passes _ h (fun _ _ => Nat.succ_pos c) fun _ _ => trivial

theorem rules_typeArguments_passes (h : ∀ p, P p → p.kind = .lessThan) :
    Passes rules (c + 1) P (rules .typeArguments) :=
  rule_passes _ (fun _ _ => trivial) (fun _ _ => Nat.succ_pos c) h

theorem rules_block_passes (h : ∀ p, P p → p.kind = .openBrace) :
    Passes rules (c + 1) P (rules .block) := by
  refine rule_passes _ (fun _ _ => trivial) (fun p hp => ?_) h
  rw [Rule.rank, if_pos (h p hp)]
  exact Nat.succ_pos c

theorem rules_typeArguments : Reads rules (c + 1) P (rules .typeArguments) :=
  rule_reads _ 0 (fun _ => trivial) fun _ => Nat.le_refl 0

theorem rules_bindingName : Reads rules (c + 1) P (rules .bindingName) :=
  rule_reads _ 0 (fun _ => trivial) fun _ => Nat.le_refl 0

theorem rules_union : Reads rules (c + 2) P (rules .union) :=
  rule_reads _ 1 (fun _ => trivial) fun _ => Nat.le_refl 1

theorem rules_leftHand : Reads rules (c + 2) P (rules .leftHand) :=
  rule_reads _ 1 (fun _ => trivial) fun _ => Nat.le_refl 1

theorem rules_type : Reads rules (c + 3) P (rules .type) :=
  rule_reads _ 2 (fun _ => trivial) fun _ => Nat.le_refl 2

theorem rules_unary : Reads rules (c + 3) P (rules .unary) :=
  rule_reads _ 2 (fun _ => trivial) fun _ => Nat.le_refl 2

theorem rules_resultType : Reads rules (c + 4) P (rules .resultType) :=
  rule_reads _ 3 (fun _ => trivial) fun _ => Nat.le_refl 3

theorem rules_binary {level : Nat} : Reads rules (c + 4) P (rules (.binary level)) :=
  rule_reads _ 3 (fun _ => trivial) fun _ => Nat.le_refl 3

theorem rules_assignment : Reads rules (c + 5) P (rules .assignment) :=
  rule_reads _ 4 (fun _ => trivial) fun _ => Nat.le_refl 4

theorem rules_expression : Reads rules (c + 6) P (rules .expression) :=
  rule_reads _ 5 (fun _ => trivial) fun _ => Nat.le_refl 5

theorem rules_statement : Reads rules (c + 7) P (rules .statement) :=
  rule_reads _ 6 (fun _ => trivial) fun _ => Nat.le_refl 6

theorem rules_block : Reads rules (c + 8) P (rules .block) := by
  refine rule_reads _ 7 (fun _ => trivial) fun k => ?_
  rw [Rule.rank]
  split <;> omega

end Unchain.Grammar
