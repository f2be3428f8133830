import Unchain.Proofs.Grammar.SourceFile
import Unchain.Proofs.Grammar.Stands
import Unchain.Proofs.Term.Represents
import Unchain.Proofs.Term.Text

/-!
# Reading a term

What it is to read a term from its text, rule by rule. The rules for accesses,
for operators with two operands and for commas repeat a step on what they have
read, so a term that stands on the left of others is what such a rule has read
when it gets to its repetition (`Enters`); what a rule reads to the end is
`Makes`.

A term is read as what its level says, and then by every rule for looser
expressions as well (`Legible`).
-/

namespace Unchain.Term

open Grammar Printer
open Syntax (Data Flags NodeId)
open Token

variable {s s' : State} {cs rest tail : List Char} {l : Lexeme} {k : Kind} {e e' : Term}
  {rules : Rules}

/-! ### Results -/

/-- From `s` the step answers with a part that is the term `e`, in a place with `Q`. -/
def Makes (r : Reader (Option NodeId)) (s : State) (e : Term) (Q : State → Prop) : Prop :=
  ∃ id s', r.run s = some (id, s') ∧ Reached s s' ∧ Q s' ∧ Represents s'.tree.part? id e

/-- From `s` the step comes down to a repetition, from a part that is the term `e` and from a place
with `Q`. -/
def Enters (r : Reader (Option NodeId)) (step : Option NodeId → Reader (Turn (Option NodeId)))
    (s : State) (e : Term) (Q : State → Prop) : Prop :=
  ∃ id s' n, r.run s = (repeatUpTo step n id).run s' ∧ s'.left < n ∧ Reached s s' ∧ Q s' ∧
    Represents s'.tree.part? id e

variable {r : Reader (Option NodeId)} {step : Option NodeId → Reader (Turn (Option NodeId))}
  {Q Q' : State → Prop}

/-- What is read before a repetition. -/
theorem Makes.enters (h : Makes r s e Q) :
    Enters (r >>= fun id => repeating id step) step s e Q := by
  obtain ⟨id, s', hrun, hreached, hQ, he⟩ := h
  refine ⟨id, s', s'.limit, ?_, hreached.sound.left_lt_limit, hreached, hQ, he⟩
  rw [run_bind hrun, repeating, run_bind (run_get s')]

/-- One more turn of the repetition. -/
theorem Enters.again (h : Enters r step s e Q)
    (hstep : ∀ id s', Reached s s' → Q s' → Represents s'.tree.part? id e →
      ∃ id' s'', (step id).run s' = some (.again id', s'') ∧ Reached s' s'' ∧ s''.left < s'.left ∧
        Q' s'' ∧ Represents s''.tree.part? id' e') : Enters r step s e' Q' := by
  obtain ⟨id, s', n, hrun, hn, hreached, hQ, he⟩ := h
  obtain ⟨id', s'', hrun', hreached', hleft, hQ', he'⟩ := hstep id s' hreached hQ he
  obtain ⟨n, rfl⟩ : ∃ m, n = m + 1 := ⟨n - 1, by omega⟩
  refine ⟨id', s'', n, ?_, by omega, hreached.trans hreached', hQ', he'⟩
  rw [hrun, repeatUpTo, run_bind hrun']

/-- The end of the repetition. -/
theorem Enters.done (h : Enters r step s e Q)
    (hstep : ∀ id s', Q s' →
      ∃ s'', (step id).run s' = some (.done id, s'') ∧ Reached s' s'' ∧ Q' s'') :
    Makes r s e Q' := by
  obtain ⟨id, s', n, hrun, hn, hreached, hQ, he⟩ := h
  obtain ⟨s'', hrun', hreached', hQ'⟩ := hstep id s' hQ
  obtain ⟨n, rfl⟩ : ∃ m, n = m + 1 := ⟨n - 1, by omega⟩
  refine ⟨id, s'', ?_, hreached.trans hreached', hQ', he.grows hreached'.grows⟩
  rw [hrun, repeatUpTo, run_bind hrun']
  rfl

theorem Enters.congr {r' : Reader (Option NodeId)} (h : Enters r' step s e Q)
    (hrun : r.run s = r'.run s) : Enters r step s e Q := by
  obtain ⟨id, s', n, hrun', h⟩ := h
  exact ⟨id, s', n, hrun.trans hrun', h⟩

theorem Makes.allowingIn (hstands : Stands s cs l) (h : Makes r s e Q) :
    Makes (Grammar.allowingIn r) s e Q := by
  obtain ⟨id, s', hrun, hreached, h⟩ := h
  exact ⟨id, s', hstands.run_allowingIn hrun hreached, hreached, h⟩

/-- A new node holds what was given, and the reader stays where it is. -/
theorem run_makeFlagged (h : Stands s cs l) (data : Data) (pos : Nat) (flags : Flags)
    (hflags : flags.optionalChain = false) :
    ∃ id s', (makeFlagged data pos flags).run s = some (some id, s') ∧ Reached s s' ∧
      s'.left = s.left ∧ Stands s' cs l ∧ Holds s'.tree.part? (some id) data := by
  have hs : Sound { s with tree := (s.tree.add data pos s.lastStop flags).2 } :=
    ⟨h.sound.onToken, h.sound.limit⟩
  refine ⟨s.tree.size, _, rfl, ?_, rfl, h.transfer hs rfl rfl rfl rfl, holds_add _ _ _ _ hflags⟩
  exact { h.sound.reached with sound := hs, grows := Syntax.Tree.Grows.add .. }

theorem run_make (h : Stands s cs l) (data : Data) (pos : Nat) :
    ∃ id s', (make data pos).run s = some (some id, s') ∧ Reached s s' ∧ s'.left = s.left ∧
      Stands s' cs l ∧ Holds s'.tree.part? (some id) data :=
  run_makeFlagged h data pos {} rfl

/-! ### Places -/

/-- Before the text of a term it does not matter whether a blank is left. -/
theorem before_text (h : e.Tight) (hbefore : Before s (' ' :: (e.text ++ rest))) :
    Before s (e.text ++ rest) := by
  have hblank : afterBlank (' ' :: (e.text ++ rest)) = afterBlank (e.text ++ rest) :=
    (afterBlank_text h rest).symm
  obtain ⟨l, hopens, hstands⟩ := hbefore
  refine ⟨l, ⟨hblank ▸ hopens.ofText, hopens.isToken, hopens.noError, hopens.sameLine⟩, ?_⟩
  exact { hstands with
    isOn := ⟨hblank ▸ hstands.isOn.tokenRest, hblank ▸ hstands.isOn.rest, hstands.isOn.kind,
      hstands.isOn.value, hstands.isOn.sameLine⟩ }

/-- The token before the text of a term, perhaps with a blank between them, leads to it. -/
theorem run_advance_to (h : Stands s cs l) (hk : l.kind ≠ .endOfFile) (he : e.Tight)
    (hbreaks : BreaksName rest) (htail : Text.after l.length (afterBlank cs) = e.text ++ rest ∨
      Text.after l.length (afterBlank cs) = ' ' :: (e.text ++ rest)) :
    ∃ s', advance.run s = some ((), s') ∧ Reached s s' ∧ s'.left < s.left ∧
      Before s' (e.text ++ rest) := by
  obtain ⟨l', hopens, -⟩ := exists_opens he hbreaks
  rcases htail with htail | htail
  · obtain ⟨s', hrun, hreached, hleft, hstands⟩ := h.run_advance hk htail hopens
    exact ⟨s', hrun, hreached, hleft, l', hopens, hstands⟩
  · have hblank : Opens (' ' :: (e.text ++ rest)) l' :=
      ⟨by rw [← hopens.ofText, afterBlank_text he]; rfl, hopens.isToken, hopens.noError,
        hopens.sameLine⟩
    obtain ⟨s', hrun, hreached, hleft, hstands⟩ := h.run_advance hk htail hblank
    exact ⟨s', hrun, hreached, hleft, before_text he ⟨l', hblank, hstands⟩⟩

/-- Where a text starts that follows an operand, its first token is of few kinds. -/
theorem kind_of_follows (h : Follows rest k tail) (hopens : Opens rest l) :
    l.kind ∈ closers ++ spacedMarks := by
  have hk : k ∈ closers ++ spacedMarks := by
    cases h with
    | closer hk => exact List.mem_append_left _ hk
    | spaced hk => exact List.mem_append_right _ hk
  obtain ⟨l', hopens', hjoins⟩ := h.exists_opens
  obtain rfl := hopens.eq hopens'
  cases hjoins with
  | whole hl => exact hl ▸ hk
  | parts hl => rw [hl]; decide

theorem near_of_before (h : Before s rest) (hfollows : Follows rest k tail) :
    Near s rest k tail := by
  obtain ⟨l, hopens, hstands⟩ := h
  obtain ⟨l', hopens', hjoins⟩ := hfollows.exists_opens
  obtain rfl := hopens.eq hopens'
  exact ⟨l, hstands, hjoins⟩

/-! ### What it is to read a term -/

/-- The reader is before the text of a term with `rest` after it. Fuel and nesting are enough for
the term; `room` is for the guard of the rule itself. -/
structure Ready (fuel cost room : Nat) (s : State) (e : Term) (rest : List Char) : Prop where
  before : Before s (e.text ++ rest)
  fuel : 8 * s.left + cost ≤ fuel
  room : s.depth + e.nesting + room ≤ Limits.grammarDepth

/-- Only an operator that binds looser than the last operand of the term may follow it. -/
def Stops (e : Term) (k : Kind) : Prop :=
  bindingLevel k ≤ e.level + 1 ∧ (k = .power → Level.unary ≤ e.level)

/-- The operators of the term bind where `level` is asked for. -/
def Over (e : Term) (level : Nat) : Prop :=
  level ≤ e.level ∨ (e.level = Level.exponent ∧ level ≤ Level.exponent + 1)

/-- Tokens at which every assignment ends. -/
def enders : List Kind := .colon :: closers

/-- The term is read as a name or what stands in parentheses, with accesses and calls; more of them
may follow. -/
def ReadAsLeftHand (e : Term) : Prop :=
  ∀ (fuel : Nat) (s : State) (rest : List Char) (l : Lexeme), Opens rest l → BreaksName rest →
    Ready fuel 1 0 s e rest →
    Enters (leftHandBody (run fuel)) (memberStep (run fuel) s.scanner.cursor.start true) s e
      (Before · rest)

/-- The term is read as an operand of an operator. -/
def ReadAsUnary (e : Term) : Prop :=
  ∀ (fuel : Nat) (s : State) (rest : List Char) (k : Kind) (tail : List Char),
    Follows rest k tail → Ready fuel 2 0 s e rest →
    Makes (unaryBody (run fuel)) s e (Near · rest k tail)

/-- The term is read as operands with operators between them; more of them may follow. -/
def ReadAsBinary (e : Term) : Prop :=
  ∀ (fuel level : Nat) (s : State) (rest : List Char) (k : Kind) (tail : List Char),
    Follows rest k tail → e.Stops k → e.Over level → Ready fuel 3 0 s e rest →
    Enters (binaryBody (run fuel) level) (binaryStep (run fuel) level s.scanner.cursor.start) s e
      (Near · rest k tail)

/-- The term is read as an expression without commas. -/
def ReadAsAssignment (e : Term) : Prop :=
  ∀ (fuel : Nat) (s : State) (rest : List Char) (k : Kind) (tail : List Char),
    Follows rest k tail → k ∈ enders → Ready fuel 4 0 s e rest →
    Makes (assignmentBody (run fuel)) s e (Near · rest k tail)

/-- The term is read as an expression; more commas may follow. -/
def ReadAsExpression (e : Term) : Prop :=
  ∀ (fuel : Nat) (s : State) (rest : List Char) (k : Kind) (tail : List Char),
    Follows rest k tail → k ∈ closers → Ready fuel 5 1 s e rest →
    Enters (expressionBody (run fuel)) (commaStep (run fuel) s.scanner.cursor.start) s e
      (Near · rest k tail)

/-- The term is read as what its level says, and by every rule for looser expressions. -/
structure Legible (e : Term) : Prop where
  leftHand : Level.leftHand ≤ e.level → e.ReadAsLeftHand
  unary : Level.unary ≤ e.level → e.ReadAsUnary
  binary : Level.coalesce ≤ e.level → e.ReadAsBinary
  assignment : Level.assignment ≤ e.level → e.ReadAsAssignment
  expression : e.ReadAsExpression

/-! ### Rules -/

variable {fuel level pos : Nat} {id : Option NodeId}

/-- Tokens that an access or a call can start with. -/
def continuers : List Kind :=
  [.dot, .questionDot, .openBracket, .exclamation, .template, .templateHead, .lessThan, .openParen]

theorem run_memberStep_done (h : Stands s cs l) (hk : l.kind ∉ continuers) (allowCalls : Bool) :
    (memberStep rules pos allowCalls id).run s = some (.done id, s) := by
  rw [memberStep, run_bind h.run_kind]
  split
  iterate 8
    · next heq =>
      rw [heq] at hk
      exact absurd (by decide) hk
  · rfl

/-- Before an operator that does not bind the operators end. -/
theorem run_binaryStep_done (h : Near s rest k tail)
    (hend : bindingLevel k = 0 ∨ binds k level = false) :
    ∃ s', (binaryStep rules level pos id).run s = some (.done id, s') ∧ Reached s s' ∧
      Near s' rest k tail := by
  obtain ⟨l, s', hjoin, hreached, -, hstands, rfl, -, hjoins⟩ := h.run_joinGreater
  have hnoIn : s'.context.noIn = false := by rw [hstands.context]
  refine ⟨s', ?_, hreached, l, hstands, hjoins⟩
  rw [binaryStep, run_bind hjoin, run_bind hstands.run_kind]
  by_cases hzero : bindingLevel l.kind = 0
  · rw [if_pos hzero]
    rfl
  · rw [if_neg hzero, run_bind (run_get s')]
    simp [hnoIn, hend.resolve_left hzero]

theorem run_commaStep_done (h : Near s rest k tail) (hk : k ≠ .comma) :
    ∃ s', (commaStep rules pos id).run s = some (.done id, s') ∧ Reached s s' ∧
      Near s' rest k tail := by
  obtain ⟨l, hstands, hjoins⟩ := h
  have hne : l.kind ≠ .comma := by
    cases hjoins with
    | whole hl => rwa [hl]
    | parts hl => rw [hl]; decide
  refine ⟨s, ?_, hstands.sound.reached, l, hstands, hjoins⟩
  rw [commaStep, run_bind (hstands.run_accept_of_ne hne)]
  rfl

/-- A rule costs less inside than outside. -/
theorem Ready.pred {cost room : Nat} (h : Ready (fuel + 1) (cost + 1) room s e rest) :
    Ready fuel cost room s e rest :=
  ⟨h.before, by have := h.fuel; omega, h.room⟩

theorem Ready.exists_succ {cost room : Nat} (h : Ready fuel (cost + 1) room s e rest) :
    ∃ n, fuel = n + 1 := ⟨fuel - 1, by have := h.fuel; omega⟩

theorem ReadAsLeftHand.rule (h : e.ReadAsLeftHand) (hopens : Opens rest l)
    (hbreaks : BreaksName rest) (hl : l.kind ∉ continuers) (hready : Ready fuel 2 0 s e rest) :
    Makes (run fuel .leftHand) s e (Before · rest) := by
  obtain ⟨n, rfl⟩ := hready.exists_succ
  refine (h n s rest l hopens hbreaks hready.pred).done fun id s' hbefore => ?_
  obtain ⟨l', hopens', hstands⟩ := hbefore
  obtain rfl := hopens.eq hopens'
  exact ⟨s', run_memberStep_done hstands hl true, hstands.sound.reached, l, hopens, hstands⟩

theorem ReadAsUnary.rule (h : e.ReadAsUnary) (hfollows : Follows rest k tail)
    (hready : Ready fuel 3 0 s e rest) : Makes (run fuel .unary) s e (Near · rest k tail) := by
  obtain ⟨n, rfl⟩ := hready.exists_succ
  exact h n s rest k tail hfollows hready.pred

theorem ReadAsBinary.rule (h : e.ReadAsBinary) (hfollows : Follows rest k tail) (hstops : e.Stops k)
    (hover : e.Over level) (hend : bindingLevel k = 0 ∨ binds k level = false)
    (hready : Ready fuel 4 0 s e rest) :
    Makes (run fuel (.binary level)) s e (Near · rest k tail) := by
  obtain ⟨n, rfl⟩ := hready.exists_succ
  exact (h n level s rest k tail hfollows hstops hover hready.pred).done fun id s' hnear =>
    run_binaryStep_done hnear hend

/-- The guard of the rule takes the room that is left for it. -/
theorem ReadAsAssignment.rule (h : e.ReadAsAssignment) (hfollows : Follows rest k tail)
    (hk : k ∈ enders) (hready : Ready fuel 5 1 s e rest) :
    Makes (run fuel .assignment) s e (Near · rest k tail) := by
  obtain ⟨n, rfl⟩ := hready.exists_succ
  obtain ⟨⟨l, hopens, hstands⟩, hfuel, hroom⟩ := hready.pred
  have hs : Sound { s with depth := s.depth + 1 } := ⟨hstands.sound.onToken, hstands.sound.limit⟩
  have hready' : Ready n 4 0 { s with depth := s.depth + 1 } e rest :=
    ⟨⟨l, hopens, hstands.transfer hs rfl rfl rfl rfl⟩, hfuel, by dsimp only; omega⟩
  obtain ⟨id, s', hrun, hreached, ⟨l', hstands', hjoins⟩, he⟩ :=
    h n _ rest k tail hfollows hk hready'
  have hs' : Sound { s' with depth := s'.depth - 1 } :=
    ⟨hstands'.sound.onToken, hstands'.sound.limit⟩
  refine ⟨id, _, run_nested (by omega) hrun, ?_,
    ⟨l', hstands'.transfer hs' rfl rfl rfl rfl, hjoins⟩, he⟩
  exact { hreached with
    sound := hs'
    depth := by rw [hreached.depth]; rfl }

theorem ReadAsExpression.rule (h : e.ReadAsExpression) (hfollows : Follows rest k tail)
    (hk : k ∈ closers) (hne : k ≠ .comma) (hready : Ready fuel 6 1 s e rest) :
    Makes (run fuel .expression) s e (Near · rest k tail) := by
  obtain ⟨n, rfl⟩ := hready.exists_succ
  exact (h n s rest k tail hfollows hk hready.pred).done fun id s' hnear =>
    run_commaStep_done hnear hne

/-! ### From tight to loose -/

/-- An increment or decrement after an operand, or none. -/
theorem run_unaryBody (hk : l.kind = .identifier ∨ l.kind = .openParen) (h : Stands s cs l) :
    (unaryBody rules).run s = (suffixedExpression rules).run s := by
  rw [unaryBody, run_bind (run_tokenPos s), run_bind h.run_kind]
  rcases hk with hk | hk <;> simp only [hk]

theorem ReadAsLeftHand.unary (h : e.ReadAsLeftHand) (he : e.Tight) (hl : Level.leftHand ≤ e.level) :
    e.ReadAsUnary := by
  intro fuel s rest k tail hfollows hready
  obtain ⟨l, hopens, hstands⟩ := hready.before
  have hkind := kind_of_suffix he (Nat.le_trans (by decide) hl) hopens hfollows.breaksName
  obtain ⟨l', hopens', -⟩ := hfollows.exists_opens
  have hall : ∀ k ∈ closers ++ spacedMarks,
      k ∉ continuers ∧ [Kind.plusPlus, .minusMinus].contains k = false := by decide
  obtain ⟨hcontinuer, hsuffix⟩ := hall l'.kind (kind_of_follows hfollows hopens')
  obtain ⟨id, s', hrun, hreached, hbefore, he'⟩ :=
    h.rule hopens' hfollows.breaksName hcontinuer hready
  refine ⟨id, s', ?_, hreached, near_of_before hbefore hfollows, he'⟩
  obtain ⟨l'', hopens'', hstands'⟩ := hbefore
  obtain rfl := hopens'.eq hopens''
  rw [run_unaryBody hkind hstands, suffixedExpression, run_bind (run_tokenPos s), run_bind hrun,
    run_bind (hstands'.run_atAny? _), run_bind hstands'.run_lineBreakBefore, hsuffix]
  rfl

theorem ReadAsUnary.binary (h : e.ReadAsUnary) : e.ReadAsBinary := by
  intro fuel level s rest k tail hfollows _ _ hready
  refine (h.rule hfollows hready).enters.congr ?_
  rw [binaryBody, run_bind (run_tokenPos s)]

/-- Of the tokens that a term can start with only a name is a name. -/
theorem run_atIdentifier? (h : Stands s cs l) (hk : l.kind ∈ starters) :
    atIdentifier?.run s = some (decide (l.kind = .identifier), s) := by
  have hall : ∀ k ∈ starters, (k.isIdentifierLike && !decide (k = .awaitKeyword)) =
      decide (k = .identifier) := by decide
  rw [h.run_atIdentifier?, hall l.kind hk]

theorem run_arrowHere? (h : Stands s cs l) (hk : l.kind ∈ starters) (hfuel : 8 * s.left ≤ fuel) :
    ∃ s', (arrowHere? (run fuel)).run s = some (none, s') ∧ Reached s s' ∧ Stands s' cs l := by
  have hserves : Serves (run fuel) (8 * s.left + 0) := (serves_run fuel).mono hfuel
  rw [arrowHere?, run_bind h.run_kind]
  split
  · next heq =>
    rw [heq] at hk
    exact absurd hk (by decide)
  · obtain ⟨s', hrun, hreached, hstands⟩ := h.run_skipArrowHead hserves
    exact ⟨s', by rw [run_bind hrun]; rfl, hreached, hstands⟩
  · next heq =>
    rw [heq] at hk
    exact absurd hk (by decide)
  · rw [run_bind (run_atIdentifier? h hk)]
    by_cases hidentifier : l.kind = .identifier
    · obtain ⟨s', hrun, hreached, hstands⟩ := h.run_nextOnLine_arrow
      refine ⟨s', ?_, hreached, hstands⟩
      rw [decide_eq_true hidentifier, if_pos rfl, run_bind hrun]
      rfl
    · exact ⟨s, by rw [decide_eq_false hidentifier]; rfl, h.sound.reached, h⟩

/-- A term is no arrow, so it starts with operands and operators. -/
theorem run_assignmentBody (he : e.Tight) (hbreaks : BreaksName rest)
    (hready : Ready fuel 4 0 s e rest) :
    ∃ s', Reached s s' ∧ Ready fuel 4 0 s' e rest ∧ (assignmentBody (run fuel)).run s =
      (run fuel (.binary 0) >>= assignmentRest (run fuel) s'.scanner.cursor.start).run s' := by
  obtain ⟨⟨l, hopens, hstands⟩, hfuel, hroom⟩ := hready
  obtain ⟨l', hopens', hk⟩ := exists_opens he hbreaks
  obtain rfl := hopens.eq hopens'
  obtain ⟨s', hrun, hreached, hstands'⟩ := run_arrowHere? hstands hk (by omega : _ ≤ fuel)
  have hyield : l.kind ≠ .yieldKeyword := by
    intro heq
    rw [heq] at hk
    exact absurd hk (by decide)
  have hleft := hreached.left_le
  refine ⟨s', hreached, ⟨⟨l, hopens, hstands'⟩, by omega, by rw [hreached.depth]; exact hroom⟩, ?_⟩
  rw [assignmentBody, run_bind (hstands.run_at? _), run_bind (run_get s)]
  simp only [hyield, decide_false, Bool.false_and]
  rw [if_neg Bool.false_ne_true, run_bind hrun, run_bind (run_tokenPos s')]

theorem ReadAsBinary.assignment (h : e.ReadAsBinary) (he : e.Tight) : e.ReadAsAssignment := by
  intro fuel s rest k tail hfollows hk hready
  have hall : ∀ k ∈ enders, bindingLevel k = 0 ∧ k.isAssignment = false ∧ k ≠ .question ∧
      k ≠ .power := by decide
  obtain ⟨hlevel, hassignment, hquestion, hpower⟩ := hall k hk
  obtain ⟨s₁, hreached₁, hready₁, hrun₁⟩ := run_assignmentBody he hfollows.breaksName hready
  have hstops : e.Stops k := ⟨by omega, fun heq => absurd heq hpower⟩
  obtain ⟨id, s₂, hrun₂, hreached₂, hnear, he₂⟩ :=
    h.rule hfollows hstops (.inl (Nat.zero_le _)) (.inl hlevel) hready₁
  obtain ⟨l, s₃, hjoin, hreached₃, -, hstands, rfl, -, hjoins⟩ := hnear.run_joinGreater
  refine ⟨id, s₃, ?_, (hreached₁.trans hreached₂).trans hreached₃, ⟨l, hstands, hjoins⟩,
    he₂.grows hreached₃.grows⟩
  rw [hrun₁, run_bind hrun₂, assignmentRest, run_bind hjoin, run_bind hstands.run_kind,
    hassignment, if_neg Bool.false_ne_true, if_neg hquestion]
  rfl

theorem ReadAsAssignment.expression (h : e.ReadAsAssignment) : e.ReadAsExpression := by
  intro fuel s rest k tail hfollows hk hready
  refine (h.rule hfollows (List.mem_cons_of_mem _ hk) hready).enters.congr ?_
  rw [expressionBody, run_bind (run_tokenPos s)]

namespace Legible

theorem of_assignment (hl : e.level < Level.coalesce) (h : e.ReadAsAssignment) : e.Legible where
  leftHand hle := absurd (Nat.lt_of_le_of_lt hle hl) (by decide)
  unary hle := absurd (Nat.lt_of_le_of_lt hle hl) (by decide)
  binary hle := absurd (Nat.lt_of_le_of_lt hle hl) (by decide)
  assignment _ := h
  expression := h.expression

theorem of_binary (he : e.Tight) (hl : e.level < Level.unary) (h : e.ReadAsBinary) : e.Legible where
  leftHand hle := absurd (Nat.lt_of_le_of_lt hle hl) (by decide)
  unary hle := absurd (Nat.lt_of_le_of_lt hle hl) (by decide)
  binary _ := h
  assignment _ := h.assignment he
  expression := (h.assignment he).expression

theorem of_unary (he : e.Tight) (hl : e.level < Level.leftHand) (h : e.ReadAsUnary) :
    e.Legible where
  leftHand hle := absurd (Nat.lt_of_le_of_lt hle hl) (by decide)
  unary _ := h
  binary _ := h.binary
  assignment _ := h.binary.assignment he
  expression := (h.binary.assignment he).expression

theorem of_leftHand (he : e.Tight) (hl : Level.leftHand ≤ e.level) (h : e.ReadAsLeftHand) :
    e.Legible where
  leftHand _ := h
  unary _ := h.unary he hl
  binary _ := (h.unary he hl).binary
  assignment _ := (h.unary he hl).binary.assignment he
  expression := ((h.unary he hl).binary.assignment he).expression

end Legible

end Unchain.Term
