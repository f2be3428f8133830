import Unchain.Proofs.Grammar.Expressions
import Unchain.Proofs.Token.Printed

/-!
# Readers of text without errors

A reader that has found no error stands on a token of its text (`Stands`), and
what it stands on says what every elementary step answers. Accepting a token
leads to the token that the text after it opens with (`Stands.run_advance`); a
step ahead leads back (`Stands.run_lookAhead`). A reader before an operator may
stand on a part of it only (`Near`) until it joins the parts
(`Near.run_joinGreater`).

In a text without `=>` no arrow is found (`Stands.run_nextOnLine_arrow`,
`Stands.run_skipArrowHead`).
-/

namespace Unchain.Grammar

open Syntax (NodeId)
open Token (Inert Joins Kind Lexeme Opens afterBlank)

variable {α β : Type} {s s' : State} {cs : List Char} {l l' : Lexeme} {k : Kind}

/-- The reader stands on the token `l` at the start of `cs`, outside of functions. It has found no
error, and no arrow stands in its text. -/
structure Stands (s : State) (cs : List Char) (l : Lexeme) : Prop where
  sound : Sound s
  noErrors : s.errors = #[]
  noTokenErrors : s.scanner.errors = #[]
  skips : s.scanner.skipTrivia = true
  context : s.context = {}
  inert : Inert s.text
  isOn : s.scanner.cursor.IsOn cs l

/-- The reader stands on the first token of `cs`. -/
def Before (s : State) (cs : List Char) : Prop := ∃ l, Opens cs l ∧ Stands s cs l

/-- The reader stands on a token that is, or is joined to, one of kind `k`, with `tail` after it. -/
def Near (s : State) (cs : List Char) (k : Kind) (tail : List Char) : Prop :=
  ∃ l, Stands s cs l ∧ Joins cs l k tail

/-! ### Elementary steps -/

theorem run_bind {x : Reader α} {f : α → Reader β} {a : α} (h : x.run s = some (a, s')) :
    (x >>= f).run s = (f a).run s' := by
  rw [StateT.run_bind, h]
  rfl

theorem run_tokenPos (s : State) : tokenPos.run s = some (s.scanner.cursor.start, s) := rfl

theorem run_lastStop (s : State) : lastStop.run s = some (s.lastStop, s) := rfl

theorem run_get (s : State) : (get : Reader State).run s = some (s, s) := rfl

/-- Below the limit a nested rule is read one level deeper. -/
theorem run_nested {r : Reader (Option NodeId)} {id : Option NodeId}
    (hdepth : s.depth < Limits.grammarDepth)
    (hrun : r.run { s with depth := s.depth + 1 } = some (id, s')) :
    (nested r).run s = some (id, { s' with depth := s'.depth - 1 }) := by
  simp [nested, hrun, Nat.not_le.mpr hdepth]

namespace Stands

/-- Where a reader stands is seen from its scanner, its errors, its context and its text. -/
theorem transfer (h : Stands s cs l) (hs : Sound s') (hscanner : s'.scanner = s.scanner)
    (herrors : s'.errors = s.errors) (hcontext : s'.context = s.context)
    (htext : s'.text = s.text) : Stands s' cs l where
  sound := hs
  noErrors := herrors.trans h.noErrors
  noTokenErrors := hscanner ▸ h.noTokenErrors
  skips := hscanner ▸ h.skips
  context := hcontext.trans h.context
  inert := htext ▸ h.inert
  isOn := hscanner ▸ h.isOn

theorem kind_eq (h : Stands s cs l) : s.spot.kind = l.kind := h.isOn.kind

theorem run_kind (h : Stands s cs l) : kind.run s = some (l.kind, s) := by
  rw [← h.kind_eq]
  rfl

theorem run_at? (h : Stands s cs l) (k : Kind) : (at? k).run s = some (decide (l.kind = k), s) := by
  rw [← h.kind_eq]
  rfl

theorem run_atAny? (h : Stands s cs l) (ks : List Kind) :
    (atAny? ks).run s = some (ks.contains l.kind, s) := by
  rw [← h.kind_eq]
  rfl

theorem run_lineBreakBefore (h : Stands s cs l) : lineBreakBefore.run s = some (false, s) := by
  rw [← h.isOn.sameLine]
  rfl

theorem run_tokenValue (h : Stands s cs l) :
    tokenValue.run s = some (String.ofList l.value, s) := by
  rw [← h.isOn.value]
  rfl

/-- Outside of functions `await` is no name. -/
theorem run_atIdentifier? (h : Stands s cs l) :
    atIdentifier?.run s =
      some (l.kind.isIdentifierLike && !decide (l.kind = .awaitKeyword), s) := by
  have hrun : atIdentifier?.run s = some (s.spot.isName, s) := rfl
  have hcontext : s.spot.context = {} := h.context
  simp [hrun, Spot.isName, hcontext, h.kind_eq]

/-! ### Accepting tokens -/

/-- A reader starts on the first token of its text. -/
theorem run_start {text : List Char} (hopens : Opens text l) (hinert : Inert text) :
    ∃ s, advance.run (.ofText text) = some ((), s) ∧ Stands s text l ∧ s.left ≤ text.length ∧
      s.depth = 0 := by
  have hends : (State.ofText text).scanner.cursor.EndsIn text :=
    Token.Scanner.endsIn_ofText text true
  have hsound := sound_advance (s := .ofText text) hends (by simp [State.ofText])
  obtain ⟨hon, herrors⟩ :=
    Token.Scanner.isOn_scan (s := (State.ofText text).scanner) hopens rfl rfl
  refine ⟨_, rfl, ?_, hsound.onToken.tokenRest_suffix.length_le, rfl⟩
  exact
    { sound := hsound
      noErrors := rfl
      noTokenErrors := herrors
      skips := Token.Scanner.scan_skipTrivia _
      context := rfl
      inert := hinert
      isOn := hon }

/-- Accepting a token leads to the next one. -/
theorem run_advance {tail : List Char} (h : Stands s cs l) (hk : l.kind ≠ .endOfFile)
    (htail : Text.after l.length (afterBlank cs) = tail) (hopens : Opens tail l') :
    ∃ s', advance.run s = some ((), s') ∧ Reached s s' ∧ s'.left < s.left ∧ Stands s' tail l' := by
  subst htail
  obtain ⟨s', hrun, hreached, hleft⟩ := Grammar.run_advance h.sound
  obtain ⟨hon, herrors⟩ := Token.Scanner.isOn_scan hopens h.isOn.rest h.skips
  refine ⟨s', hrun, hreached, hleft (h.kind_eq ▸ hk), ?_⟩
  obtain rfl : _ = s' := (Prod.mk.inj (Option.some.inj hrun)).2
  exact ⟨hreached.sound, h.noErrors, herrors.trans h.noTokenErrors,
    hreached.skipTrivia.trans h.skips, h.context, h.inert, hon⟩

theorem run_accept (h : Stands s cs l) (hk : l.kind = k) (hrun : advance.run s = some ((), s')) :
    (accept k).run s = some (true, s') := by
  simp [accept, h.run_at?, hk, hrun]

theorem run_accept_of_ne (h : Stands s cs l) (hk : l.kind ≠ k) :
    (accept k).run s = some (false, s) := by
  simp [accept, h.run_at?, hk]

theorem run_expect (h : Stands s cs l) (hk : l.kind = k) (hrun : advance.run s = some ((), s')) :
    (expect k).run s = some (true, s') := by
  simp [expect, h.run_accept hk hrun]

/-! ### Looking ahead -/

/-- A step ahead leads back to the token. -/
theorem run_lookAhead {r : Reader α} {a : α} (h : Stands s cs l) (hrun : r.run s = some (a, s'))
    (hreached : Reached s s') :
    ∃ s'', (lookAhead r).run s = some (a, s'') ∧ Reached s s'' ∧ Stands s'' cs l := by
  have hon : s.scanner.cursor.OnToken s'.text := hreached.text ▸ h.sound.onToken
  refine ⟨_, Grammar.run_lookAhead hrun, ?_, ?_⟩
  · exact { hreached with
      sound := ⟨hon, hreached.sound.limit⟩
      suffix := List.suffix_refl _ }
  · exact
      { sound := ⟨hon, hreached.sound.limit⟩
        noErrors := by simp [h.noErrors]
        noTokenErrors := by simp [Token.Scanner.restore, Token.Scanner.save, h.noTokenErrors]
        skips := hreached.skipTrivia.trans h.skips
        context := hreached.context.trans h.context
        inert := hreached.text ▸ h.inert
        isOn := h.isOn }

theorem run_nextIs (h : Stands s cs l) (hend : l.kind ≠ .endOfFile)
    (hopens : Opens (Text.after l.length (afterBlank cs)) l') (k : Kind) :
    ∃ s', (nextIs k).run s = some (decide (l'.kind = k), s') ∧ Reached s s' ∧ Stands s' cs l := by
  obtain ⟨s₁, hrun, hreached, -, hstands⟩ := h.run_advance hend rfl hopens
  have hnext : (do advance; at? k).run s = some (decide (l'.kind = k), s₁) := by
    rw [run_bind hrun, hstands.run_at?]
  exact h.run_lookAhead hnext hreached

/-! ### Context -/

/-- Outside of functions `in` is an operator anyway. -/
theorem run_allowingIn {r : Reader α} {a : α} (h : Stands s cs l) (hrun : r.run s = some (a, s'))
    (hreached : Reached s s') : (allowingIn r).run s = some (a, s') := by
  have henter : { s with context := { s.context with noIn := false } } = s := by
    cases s
    cases h.context
    rfl
  have hleave : { s' with context := s.context } = s' := by rw [← hreached.context]
  have hinside : (allowingIn r).run s =
      (r.run { s with context := { s.context with noIn := false } }).bind
        fun p => some (p.1, { p.2 with context := s.context }) := rfl
  rw [hinside, henter, hrun, Option.bind_some, hleave]

/-! ### No arrows -/

/-- From here on no arrow is reached. -/
theorem kind_ne_arrow (h : Stands s cs l) (hreached : Reached s s') : s'.spot.kind ≠ .arrow := by
  intro hk
  have hon := hreached.sound.onToken
  have hprefix : ['=', '>'] <+: s'.scanner.cursor.tokenRest :=
    hon.prefix_of_spelling? (w := "=>") (by rw [show s'.scanner.cursor.kind = .arrow from hk]; rfl)
  exact h.inert.not_prefix (hreached.text ▸ hon.tokenRest_suffix) hprefix

theorem run_nextOnLine_arrow (h : Stands s cs l) :
    ∃ s', (nextOnLine (· = .arrow)).run s = some (false, s') ∧ Reached s s' ∧ Stands s' cs l := by
  obtain ⟨s₁, hrun, hreached, -⟩ := Grammar.run_advance h.sound
  have hne : ¬ s₁.scanner.cursor.kind = .arrow := h.kind_ne_arrow hreached
  have hkind : kind.run s₁ = some (s₁.scanner.cursor.kind, s₁) := rfl
  have hline : lineBreakBefore.run s₁ = some (s₁.scanner.cursor.lineBreakBefore, s₁) := rfl
  refine h.run_lookAhead ?_ hreached
  rw [run_bind hrun, run_bind hline, run_bind hkind]
  simp [hne]

end Stands

/-- Whatever the step answers, `D` holds of it and of where the step ends. -/
def Ends (r : Reader α) (D : α → State → Prop) : Prop :=
  ∀ s a s', r.run s = some (a, s') → D a s'

namespace Ends

variable {x r : Reader α} {f : α → Reader β} {D : α → State → Prop} {D' : β → State → Prop}

theorem bind (h : ∀ a, Ends (f a) D') : Ends (x >>= f) D' := by
  intro s b s'' hrun
  rw [StateT.run_bind, Option.bind_eq_bind, Option.bind_eq_some_iff] at hrun
  obtain ⟨⟨a, s'⟩, -, hrun⟩ := hrun
  exact h a s' b s'' hrun

theorem ite {b : Prop} [Decidable b] (hx : Ends x D) (hr : Ends r D) :
    Ends (if b then x else r) D := by
  split
  · exact hx
  · exact hr

/-- A step that is taken or left out before another. -/
theorem optional {b : Prop} [Decidable b] {y : Reader β} (hy : Ends y D') :
    Ends (if b then x >>= fun _ => y else y) D' :=
  .ite (.bind fun _ => hy) hy

theorem pure {a : α} (h : ∀ s, D a s) : Ends (Pure.pure a) D := by
  intro s b s' hrun
  obtain ⟨rfl, rfl⟩ := Prod.mk.inj (Option.some.inj hrun)
  exact h _

end Ends

variable {rules : Rules}

/-- The head of an arrow ends before the arrow. -/
theorem skipArrowHead_ends :
    Ends (skipArrowHead rules) fun b s => b = true → s.spot.kind = .arrow := by
  have hno : Ends (pure false : Reader Bool) fun b s => b = true → s.spot.kind = .arrow :=
    .pure fun _ => nofun
  have harrow : Ends (do return (← at? .arrow) && !(← lineBreakBefore))
      fun b s => b = true → s.spot.kind = .arrow := by
    intro s b s' hrun hb
    obtain ⟨rfl, rfl⟩ := Prod.mk.inj (Option.some.inj hrun)
    simp only [Bool.and_eq_true] at hb
    exact of_decide_eq_true hb.1
  refine .bind fun _ => .bind fun _ => .optional <| .bind fun _ => .ite hno ?_
  refine .bind fun _ => .ite hno <| .bind fun _ => .bind fun _ => .bind fun _ => .optional ?_
  exact .bind fun _ => .ite hno harrow

/-- What stands in parentheses is no head of an arrow. -/
theorem Stands.run_skipArrowHead {c : Nat} (h : Stands s cs l)
    (hr : Serves rules (8 * s.left + c)) :
    ∃ s', (lookAhead (skipArrowHead rules)).run s = some (false, s') ∧ Reached s s' ∧
      Stands s' cs l := by
  obtain ⟨b, s₁, hrun, hreached, -⟩ := skipArrowHead_reads (P := Anywhere) s h.sound hr trivial
  have hb : ¬ b = true := fun hb => h.kind_ne_arrow hreached (skipArrowHead_ends s b s₁ hrun hb)
  obtain rfl : b = false := by simpa using hb
  exact h.run_lookAhead hrun hreached

/-! ### Operators -/

/-- Only an operator that starts with `>` is read in parts. -/
theorem Near.exists_stands {tail : List Char} (h : Near s cs k tail)
    (hk : k ∉ Token.joinedMarks) :
    ∃ l, Stands s cs l ∧ l.kind = k ∧ Text.after l.length (afterBlank cs) = tail := by
  obtain ⟨l, hstands, hjoins⟩ := h
  cases hjoins with
  | whole hl htail => exact ⟨l, hstands, hl, htail⟩
  | parts _ _ hjoined _ => exact absurd (Token.mem_joinedMarks hjoined) hk

/-- Joining the parts of an operator leads to the whole of it. -/
theorem Near.run_joinGreater {tail : List Char} (h : Near s cs k tail) :
    ∃ l s', joinGreater.run s = some ((), s') ∧ Reached s s' ∧ s'.left = s.left ∧
      Stands s' cs l ∧ l.kind = k ∧ Text.after l.length (afterBlank cs) = tail ∧
      Joins cs l k tail := by
  obtain ⟨l, hstands, hjoins⟩ := h
  have hat := hstands.run_at? .greaterThan
  -- Without a longer operator to join it to, a token stays as it is.
  have hsame (hk : l.kind = k) (htail : Text.after l.length (afterBlank cs) = tail)
      (hrun : joinGreater.run s = some ((), s)) :
      ∃ l s', joinGreater.run s = some ((), s') ∧ Reached s s' ∧ s'.left = s.left ∧
        Stands s' cs l ∧ l.kind = k ∧ Text.after l.length (afterBlank cs) = tail ∧
        Joins cs l k tail :=
    ⟨l, s, hrun, hstands.sound.reached, rfl, hstands, hk, htail, hjoins⟩
  cases hjoins with
  | whole hk htail hnone =>
    refine hsame hk htail ?_
    rw [joinGreater, run_bind hat]
    by_cases hgreater : l.kind = .greaterThan
    · have hrescan : s.scanner.rescanGreater = s.scanner := by
        unfold Token.Scanner.rescanGreater
        rw [hstands.isOn.rest, htail, hnone (hk ▸ hgreater)]
        simp
      simp [hgreater, rescan, hrescan]
    · simp [hgreater]
  | @parts n hl hcut hjoined htail =>
    have hne : k ≠ .greaterThan := by
      rintro rfl
      exact absurd (Token.mem_joinedMarks hjoined) (by decide)
    have hkind : s.scanner.cursor.kind = .greaterThan := hstands.isOn.kind.trans hl
    have hrescan : s.scanner.rescanGreater =
        { s.scanner with cursor := s.scanner.cursor.extend k n } := by
      unfold Token.Scanner.rescanGreater
      rw [if_pos hkind, hstands.isOn.rest, hjoined]
    have hreached := reached_rescan Token.Scanner.rescans_rescanGreater hstands.sound
    have hleft : State.left { s with scanner := s.scanner.rescanGreater } = s.left := by
      rw [State.left, Token.Scanner.rescans_rescanGreater.tokenRest]
      rfl
    have hwhole : Text.after (l.length + n) (afterBlank cs) = tail := by
      rw [hcut.after_add, htail]
    refine ⟨{ l with kind := k, length := l.length + n }, _, ?_, hreached, hleft, ?_, rfl, hwhole,
      .whole rfl hwhole fun h => absurd h hne⟩
    · rw [joinGreater, run_bind hat]
      simp [hl, rescan]
    · rw [hrescan] at hreached ⊢
      have hon : (s.scanner.cursor.extend k n).IsOn cs
          { l with kind := k, length := l.length + n } :=
        { tokenRest := hstands.isOn.tokenRest
          rest := by
            rw [Token.Cursor.extend, hstands.isOn.rest]
            exact htail.trans hwhole.symm
          kind := rfl
          value := hstands.isOn.value
          sameLine := hstands.isOn.sameLine }
      exact
        { sound := hreached.sound
          noErrors := hstands.noErrors
          noTokenErrors := hstands.noTokenErrors
          skips := hstands.skips
          context := hstands.context
          inert := hstands.inert
          isOn := hon }

end Unchain.Grammar
