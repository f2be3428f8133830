import Unchain.Proofs.Grammar.Progress
import Unchain.Proofs.Syntax.Rows
import Unchain.Proofs.Token.Tiling

/-!
# Stages of reading

A rule of the grammar reads from its first token on, and the nodes that it has
made so far stand in a row from there to where the reader is. A `Stage` says so
for the constructs that are being read, one inside the other; `Builds` says that
a step leads from one stage to the next if no error was reported.

There are three kinds of steps. Some only ask (`Asks`); some read over tokens
and make no node (`Skips`), looking ahead among them; the others build.

As long as no error is reported a rule has passed a token when it ends, so that
its node does not end before it starts. Errors are never taken back, so a text
without errors had none at any stage. In a text with errors only the ends are
unknown: which nodes a construct takes up is the same with and without them, so
a stage has a parameter `clean` that its offsets depend on.
-/

namespace Unchain.Grammar

open Syntax (Data Flags NodeId Tree)
open Syntax.Tree (Unfinished WellPlaced)
open Token (Cursor Kind Scanner)

variable {text : List Char} {α β σ : Type}

/-! ### Where a reader is -/

/-- A reader on a token of the text, after the last token that it accepted. -/
structure Fits (text : List Char) (s : State) : Prop where
  onToken : s.scanner.cursor.OnToken text
  lastStop_le : s.lastStop ≤ s.scanner.cursor.start
  isCut_lastStop : Text.IsCut text s.lastStop

/-- A reader never goes back and never forgets a node or an error. -/
structure Moves (text : List Char) (s s' : State) : Prop where
  fits : Fits text s'
  lastStop_le : s.lastStop ≤ s'.lastStop
  start_le : s.scanner.cursor.start ≤ s'.scanner.cursor.start
  errors_le : s.errors.size ≤ s'.errors.size
  grows : s.tree.Grows s'.tree

/-- What asking leaves as it is. -/
structure Same (s s' : State) : Prop where
  cursor : s'.scanner.cursor = s.scanner.cursor
  lastStop : s'.lastStop = s.lastStop
  tree : s'.tree = s.tree
  errors : s'.errors.size = s.errors.size

theorem Fits.moves {s : State} (h : Fits text s) : Moves text s s :=
  ⟨h, Nat.le_refl _, Nat.le_refl _, Nat.le_refl _, .refl _⟩

/-- Making a node moves nothing. -/
theorem Fits.add {s : State} (h : Fits text s) (data : Data) (pos stop : Nat) (flags : Flags) :
    Moves text s { s with tree := (s.tree.add data pos stop flags).2 } :=
  ⟨⟨h.onToken, h.lastStop_le, h.isCut_lastStop⟩, Nat.le_refl _, Nat.le_refl _, Nat.le_refl _,
    .add ..⟩

theorem Moves.trans {s s' s'' : State} (h : Moves text s s') (h' : Moves text s' s'') :
    Moves text s s'' :=
  ⟨h'.fits, Nat.le_trans h.lastStop_le h'.lastStop_le, Nat.le_trans h.start_le h'.start_le,
    Nat.le_trans h.errors_le h'.errors_le, h.grows.trans h'.grows⟩

theorem Moves.errors_eq_empty {s s' : State} {clean : Prop} (h : Moves text s s')
    (hs' : clean → s'.errors = #[]) (hclean : clean) : s.errors = #[] := by
  have := h.errors_le
  rw [hs' hclean, Array.size_empty, Nat.le_zero] at this
  exact Array.eq_empty_of_size_eq_zero this

theorem Same.refl (s : State) : Same s s := ⟨rfl, rfl, rfl, rfl⟩

theorem Same.moves {s s' : State} (h : Same s s') (hs : Fits text s) : Moves text s s' := by
  have hfits : Fits text s' := by
    refine ⟨?_, ?_, ?_⟩
    · rw [h.cursor]
      exact hs.onToken
    · rw [h.lastStop, h.cursor]
      exact hs.lastStop_le
    · rw [h.lastStop]
      exact hs.isCut_lastStop
  exact ⟨hfits, Nat.le_of_eq h.lastStop.symm, Nat.le_of_eq (by rw [h.cursor]),
    Nat.le_of_eq h.errors.symm, h.tree ▸ .refl _⟩

/-- A token that is found after another starts where that ends, or later. -/
theorem stop_le_start {c d : Cursor} (hc : c.OnToken text) (hd : d.OnToken text)
    (hsuffix : d.tokenRest <:+ c.rest) : c.stop ≤ d.start := by
  obtain ⟨before, htext, hstop⟩ := hc.endsIn
  obtain ⟨before', htext', hstart⟩ := hd.starts
  have hlength := congrArg Text.byteLength (htext.symm.trans htext')
  have := Text.byteLength_le_of_end hsuffix
  simp only [Text.byteLength_append] at hlength
  omega

/-- A token that is read again starts where it did. -/
theorem start_eq_of_rescans {g : Scanner → Scanner} (hg : Scanner.Rescans g) {s : Scanner}
    (hs : s.cursor.OnToken text) : (g s).cursor.start = s.cursor.start := by
  obtain ⟨before, htext, hstart⟩ := hs.starts
  obtain ⟨before', htext', hstart'⟩ := (hg.onToken hs).starts
  rw [hg.tokenRest, htext] at htext'
  rw [hstart, hstart', List.append_cancel_right htext']

/-! ### Steps that ask -/

/-- The step leaves the reader as it is; `I` holds of its token and its answer. -/
def Asks (text : List Char) (r : Reader α) (I : Cursor → α → Prop) : Prop :=
  ∀ s a s', Fits text s → r.run s = some (a, s') → Same s s' ∧ I s.scanner.cursor a

/-! ### Steps that make no node -/

/-- The step goes back nowhere and makes no node; if `N` holds of its answer, it has passed a token
or reported an error. -/
def Skips (text : List Char) (r : Reader α) (N : α → Prop) : Prop :=
  ∀ s a s', Fits text s → r.run s = some (a, s') → Moves text s s' ∧ s'.tree = s.tree ∧
    (s'.errors = #[] → N a → s.scanner.cursor.start ≤ s'.lastStop)

/-- The value of a turn. -/
def Turn.value : Turn σ → σ
  | .again value | .done value => value

@[simp] theorem Turn.value_again (value : σ) : (Turn.again value).value = value := rfl

@[simp] theorem Turn.value_done (value : σ) : (Turn.done value).value = value := rfl

/-- What running two steps one after another comes to. -/
theorem of_run_bind {x : Reader α} {f : α → Reader β} {s s'' : State} {b : β}
    (h : (x >>= f).run s = some (b, s'')) :
    ∃ a s', x.run s = some (a, s') ∧ (f a).run s' = some (b, s'') := by
  rw [StateT.run_bind] at h
  obtain ⟨⟨a, s'⟩, hx, hf⟩ := Option.bind_eq_some_iff.mp h
  exact ⟨a, s', hx, hf⟩

section Steps

variable {x r : Reader α} {f : α → Reader β} {I J : Cursor → α → Prop} {M N : α → Prop}
  {N' : β → Prop}

namespace Asks

theorem of_run (h : ∀ s, ∃ a, r.run s = some (a, s) ∧ I s.scanner.cursor a) : Asks text r I := by
  intro s a s' _ hrun
  obtain ⟨a', hrun', hI⟩ := h s
  obtain ⟨rfl, rfl⟩ := Prod.mk.inj (Option.some.inj (hrun'.symm.trans hrun))
  exact ⟨.refl _, hI⟩

theorem mono (h : Asks text r I) (hIJ : ∀ c a, I c a → J c a) : Asks text r J := by
  intro s a s' hs hrun
  exact ⟨(h s a s' hs hrun).1, hIJ _ _ (h s a s' hs hrun).2⟩

theorem pure {a : α} (h : ∀ c, I c a) : Asks text (pure a) I :=
  of_run fun _ => ⟨a, rfl, h _⟩

theorem bind {I' : Cursor → β → Prop} (hx : Asks text x I)
    (hf : ∀ a, Asks text (f a) fun c b => I c a → I' c b) : Asks text (x >>= f) I' := by
  intro s b s'' hs hrun
  obtain ⟨a, s', hx', hf'⟩ := of_run_bind hrun
  obtain ⟨hsame, hI⟩ := hx s a s' hs hx'
  obtain ⟨hsame', hI'⟩ := hf a s' b s'' (hsame.moves hs).fits hf'
  refine ⟨⟨hsame'.cursor.trans hsame.cursor, hsame'.lastStop.trans hsame.lastStop,
    hsame'.tree.trans hsame.tree, hsame'.errors.trans hsame.errors⟩, ?_⟩
  rw [hsame.cursor] at hI'
  exact hI' hI

/-- One question after another, of which the first one's answer is not needed. -/
theorem next {I' : Cursor → β → Prop} (hx : Asks text x I) (hf : ∀ a, Asks text (f a) I') :
    Asks text (x >>= f) I' :=
  hx.bind fun a => (hf a).mono fun _ _ h _ => h

theorem ite {b : Prop} [Decidable b] {y : Reader α} (hx : b → Asks text x I)
    (hy : ¬ b → Asks text y I) : Asks text (if b then x else y) I := by
  split
  · next h => exact hx h
  · next h => exact hy h

theorem skips (h : Asks text r I) : Skips text r fun _ => False := by
  intro s a s' hs hrun
  obtain ⟨hsame, -⟩ := h s a s' hs hrun
  exact ⟨hsame.moves hs, hsame.tree, fun _ => False.elim⟩

end Asks

namespace Skips

theorem mono (h : Skips text r N) (hM : ∀ a, M a → N a) : Skips text r M := by
  intro s a s' hs hrun
  obtain ⟨hmoves, htree, hpass⟩ := h s a s' hs hrun
  exact ⟨hmoves, htree, fun hclean ha => hpass hclean (hM a ha)⟩

/-- A step that passes a token whatever it answers. -/
theorem any (h : Skips text r fun _ => True) : Skips text r N := h.mono fun _ _ => trivial

theorem reads (h : Skips text r N) : Skips text r fun _ => False := h.mono fun _ => False.elim

theorem pure {a : α} (h : ¬ N a) : Skips text (pure a) N := by
  intro s b s' hs hrun
  obtain ⟨rfl, rfl⟩ := Prod.mk.inj (Option.some.inj hrun)
  exact ⟨hs.moves, rfl, fun _ ha => (h ha).elim⟩

theorem pureBind {a : α} (h : Skips text (f a) N') : Skips text (Pure.pure a >>= f) N' := by
  rwa [pure_bind]

/-- The first step has passed a token where its answer says so; else the second one has to. -/
theorem cases (hx : Skips text x M) (moved : ∀ a, M a → Skips text (f a) fun _ => False)
    (still : ∀ a, ¬ M a → Skips text (f a) N') : Skips text (x >>= f) N' := by
  intro s b s'' hs hrun
  obtain ⟨a, s', hx', hf'⟩ := of_run_bind hrun
  obtain ⟨hmoves, htree, hpass⟩ := hx s a s' hs hx'
  by_cases ha : M a
  · obtain ⟨hmoves', htree', -⟩ := moved a ha s' b s'' hmoves.fits hf'
    refine ⟨hmoves.trans hmoves', htree'.trans htree, fun hclean _ => ?_⟩
    have herrors := hmoves'.errors_eq_empty (fun _ => hclean) trivial
    exact Nat.le_trans (hpass herrors ha) hmoves'.lastStop_le
  · obtain ⟨hmoves', htree', hpass'⟩ := still a ha s' b s'' hmoves.fits hf'
    refine ⟨hmoves.trans hmoves', htree'.trans htree, fun hclean hb => ?_⟩
    exact Nat.le_trans hmoves.start_le (hpass' hclean hb)

theorem bind (hx : Skips text x M) (hf : ∀ a, Skips text (f a) N') : Skips text (x >>= f) N' :=
  hx.cases (fun a _ => (hf a).reads) fun a _ => hf a

theorem passing (hx : Skips text x fun _ => True) (hf : ∀ a, Skips text (f a) fun _ => False) :
    Skips text (x >>= f) N' :=
  hx.cases (fun a _ => hf a) fun _ h => (h trivial).elim

theorem ask (hx : Asks text x I) (hf : ∀ a, Skips text (f a) N') : Skips text (x >>= f) N' :=
  hx.skips.bind hf

theorem ite {b : Prop} [Decidable b] {y : Reader α} (hx : b → Skips text x N)
    (hy : ¬ b → Skips text y N) : Skips text (if b then x else y) N := by
  split
  · next h => exact hx h
  · next h => exact hy h

/-- A step that is taken or left out before another. -/
theorem optional {b : Prop} [Decidable b] {y : Reader β} (hx : Skips text x M)
    (hy : Skips text y N') : Skips text (if b then x >>= fun _ => y else y) N' :=
  .ite (fun _ => hx.bind fun _ => hy) fun _ => hy

/-- A repetition whose last step has passed a token where `N` holds. -/
theorem repeatUpTo {step : σ → Reader (Turn σ)} {N : σ → Prop}
    (h : ∀ value, Skips text (step value) fun turn => N turn.value) (fuel : Nat) (value : σ) :
    Skips text (Grammar.repeatUpTo step fuel value) N := by
  induction fuel generalizing value with
  | zero => exact fun _ _ _ _ hrun => nomatch hrun
  | succ fuel ih =>
    refine (h value).cases (fun turn _ => ?_) fun turn hturn => ?_
    · cases turn with
      | again value => exact (ih value).reads
      | done value => exact .pure id
    · cases turn with
      | again value => exact ih value
      | done value => exact .pure hturn

end Skips

end Steps

/-! ### Elementary steps that ask -/

section Elementary

variable {N : α → Prop}

theorem get_asks : Asks text get fun _ _ => True := .of_run fun s => ⟨s, rfl, trivial⟩

theorem kind_asks : Asks text kind fun c k => c.kind = k := .of_run fun _ => ⟨_, rfl, rfl⟩

theorem at?_asks (k : Kind) : Asks text (at? k) fun c b => b = true ↔ c.kind = k :=
  .of_run fun _ => ⟨_, rfl, decide_eq_true_iff⟩

theorem atAny?_asks (ks : List Kind) : Asks text (atAny? ks) fun c b => b = true ↔ c.kind ∈ ks :=
  .of_run fun _ => ⟨_, rfl, List.contains_iff_mem⟩

theorem tokenPos_asks : Asks text tokenPos fun c p => c.start = p :=
  .of_run fun _ => ⟨_, rfl, rfl⟩

theorem tokenStop_asks : Asks text tokenStop fun c p => c.stop = p :=
  .of_run fun _ => ⟨_, rfl, rfl⟩

theorem lastStop_asks : Asks text lastStop fun _ _ => True := .of_run fun _ => ⟨_, rfl, trivial⟩

theorem lineBreakBefore_asks : Asks text lineBreakBefore fun _ _ => True :=
  .of_run fun _ => ⟨_, rfl, trivial⟩

theorem tokenValue_asks : Asks text tokenValue fun _ _ => True :=
  .of_run fun _ => ⟨_, rfl, trivial⟩

theorem errorCount_asks : Asks text errorCount fun _ _ => True :=
  .of_run fun _ => ⟨_, rfl, trivial⟩

theorem sourceText_asks (start stop : Nat) : Asks text (sourceText start stop) fun _ _ => True :=
  .of_run fun _ => ⟨_, rfl, trivial⟩

theorem atWord?_asks (word : String) : Asks text (atWord? word) fun _ _ => True :=
  .of_run fun _ => ⟨_, rfl, trivial⟩

theorem canEndStatement_asks : Asks text canEndStatement fun _ _ => True :=
  .of_run fun _ => ⟨_, rfl, trivial⟩

theorem atIdentifier?_asks : Asks text atIdentifier? fun _ _ => True :=
  .of_run fun _ => ⟨_, rfl, trivial⟩

/-- Changes of what no place in the text depends on. -/
theorem modify_asks {g : State → State} (h : ∀ s, Same s (g s)) :
    Asks text (modify g) fun _ _ => True := by
  intro s a s' _ hrun
  obtain rfl := (Prod.mk.inj (Option.some.inj hrun)).2
  exact ⟨h s, trivial⟩

/-- A step ahead leads back to where the reader was. -/
theorem lookAhead_asks {r : Reader α} (h : Skips text r N) :
    Asks text (lookAhead r) fun _ _ => True := by
  intro s a s' hs hrun
  cases hr : r.run s with
  | none => simp [lookAhead, hr] at hrun
  | some result =>
    obtain ⟨b, s₁⟩ := result
    obtain ⟨hmoves, htree, -⟩ := h s b s₁ hs hr
    rw [run_lookAhead hr] at hrun
    obtain ⟨rfl, rfl⟩ := Prod.mk.inj (Option.some.inj hrun)
    refine ⟨⟨rfl, rfl, htree, ?_⟩, trivial⟩
    have := hmoves.errors_le
    simp only [Array.take_eq_extract, Array.size_extract, Nat.sub_zero]
    omega

/-! ### Elementary steps over tokens -/

theorem advance_skips : Skips text advance fun _ => True := by
  intro s a s' hs hrun
  obtain rfl := (Prod.mk.inj (Option.some.inj hrun)).2
  obtain ⟨hon, hsuffix⟩ := Scanner.onToken_scan hs.onToken.endsIn
  have hnext := stop_le_start hs.onToken hon hsuffix
  have hstop := hs.onToken.start_le_stop
  have hlast := hs.lastStop_le
  refine ⟨⟨⟨hon, hnext, hs.onToken.isCut_stop⟩, ?_, ?_, Nat.le_refl _, .refl _⟩, rfl,
    fun _ _ => hstop⟩
  · exact Nat.le_trans hlast hstop
  · exact Nat.le_trans hstop hnext

theorem rescan_skips {g : Scanner → Scanner} (hg : Scanner.Rescans g) :
    Skips text (rescan g) fun _ => False := by
  intro s a s' hs hrun
  obtain rfl := (Prod.mk.inj (Option.some.inj hrun)).2
  have hstart := start_eq_of_rescans hg hs.onToken
  refine ⟨⟨⟨hg.onToken hs.onToken, ?_, hs.isCut_lastStop⟩, Nat.le_refl _,
    Nat.le_of_eq hstart.symm, Nat.le_refl _, .refl _⟩, rfl, fun _ => False.elim⟩
  exact hstart ▸ hs.lastStop_le

/-- After a report there are errors, also where the last one is at the same place. -/
theorem run_errorHere_errors {notice : Notice} {s s' : State} {a : Unit}
    (h : (errorHere notice).run s = some (a, s')) :
    s'.errors ≠ #[] ∧ s.errors.size ≤ s'.errors.size ∧ ∃ errors, s' = { s with errors } := by
  have hrun : (errorHere notice).run s = some ((),
      if s.errors.back?.any (·.start = s.scanner.cursor.start) then s
      else { s with errors := s.errors.push ⟨s.scanner.cursor.start,
        s.scanner.cursor.stop - s.scanner.cursor.start, notice⟩ }) := rfl
  rw [hrun] at h
  obtain rfl := (Prod.mk.inj (Option.some.inj h)).2
  split
  · next hback =>
    refine ⟨?_, Nat.le_refl _, _, rfl⟩
    rintro hempty
    simp [hempty] at hback
  · exact ⟨by simp, by simp, _, rfl⟩

theorem errorHere_skips (notice : Notice) : Skips text (errorHere notice) fun _ => True := by
  intro s a s' hs hrun
  obtain ⟨hne, hsize, errors, rfl⟩ := run_errorHere_errors hrun
  exact ⟨⟨⟨hs.onToken, hs.lastStop_le, hs.isCut_lastStop⟩, Nat.le_refl _, Nat.le_refl _, hsize,
    .refl _⟩, rfl, fun hclean => (hne hclean).elim⟩

theorem accept_skips (k : Kind) : Skips text (accept k) fun b => b = true :=
  .ask (at?_asks k) fun _ => .ite (fun _ => .passing advance_skips fun _ => .pure id)
    fun _ => .pure nofun

/-- A token that has to be there is passed, or an error is reported. -/
theorem expect_skips (k : Kind) : Skips text (expect k) fun _ => True := by
  refine (accept_skips k).cases (fun b hb => ?_) fun b hb => ?_
  · rw [hb]
    exact .pure id
  · rw [if_neg hb]
    exact .passing (errorHere_skips _) fun _ => .pure id

theorem endStatement_skips : Skips text endStatement fun _ => False := by
  refine .bind (accept_skips _) fun _ => .ite (fun _ => ?_) fun _ => .pure id
  refine .ask canEndStatement_asks fun _ => .ite (fun _ => ?_) fun _ => .pure id
  exact .bind (expect_skips _) fun _ => .pure id

theorem repeating_skips {step : σ → Reader (Turn σ)} {N : σ → Prop} {value : σ}
    (h : ∀ value, Skips text (step value) fun turn => N turn.value) :
    Skips text (repeating value step) N :=
  .ask get_asks fun _ => .repeatUpTo h _ value

theorem nextIs_asks (k : Kind) : Asks text (nextIs k) fun _ _ => True :=
  lookAhead_asks (.bind advance_skips fun _ => (at?_asks k).skips)

theorem nextOnLine_asks (p : Kind → Bool) : Asks text (nextOnLine p) fun _ _ => True :=
  lookAhead_asks (N := fun _ => False) <| .bind advance_skips fun _ => .ask lineBreakBefore_asks
    fun _ => .ask kind_asks fun _ => .pure id

end Elementary

/-! ### Steps that build -/

/-- How far the nodes of the innermost construct reach. -/
inductive Edge where
  /-- Up to the current token. -/
  | start
  /-- Up to the end of the last accepted token. -/
  | last
  /-- Up to an offset before that. -/
  | upTo (n : Nat)

/-- The offset that an edge stands for. -/
def Edge.offset (s : State) : Edge → Nat
  | start => s.scanner.cursor.start
  | last => s.lastStop
  | upTo n => n

/-- An edge that is an offset cuts the text before the end of the last accepted token. -/
def Edge.Within (text : List Char) (s : State) : Edge → Prop
  | upTo n => n ≤ s.lastStop ∧ Text.IsCut text n
  | _ => True

/-- The constructs that are being read: where the innermost one starts, which nodes it has and how
far they reach, and the same for those around it. -/
structure Stage where
  edge : Edge
  pos : Nat
  ids : List NodeId
  outer : List (Nat × List NodeId)

namespace Stage

/-- The construct has passed a token since. -/
abbrev moved (A : Stage) : Stage := { A with edge := .last }

/-- The construct has passed a token since, and got these nodes. -/
abbrev grown (A : Stage) (ids : List NodeId) : Stage :=
  { A with edge := .last, ids := A.ids ++ ids }

/-- A construct starts inside of the innermost one. -/
abbrev opened (A : Stage) (p : Nat) : Stage := ⟨.start, p, [], (A.pos, A.ids) :: A.outer⟩

/-- The tree is as the stage says, with the ends of its nodes if `clean` holds. -/
structure Holds (clean : Prop) (text : List Char) (A : Stage) (s : State) : Prop where
  placed : s.tree.WellPlaced clean text
  within : A.edge.Within text s
  unfinished : s.tree.Unfinished clean text (A.edge.offset s) ((A.pos, A.ids) :: A.outer)

/-- Where the first stage is reached the second one is. -/
def Entails (text : List Char) (A B : Stage) : Prop :=
  ∀ ⦃clean : Prop⦄ s, Fits text s → A.Holds clean text s → B.Holds clean text s

variable {A B C : Stage} {e : Edge} {pos p : Nat} {ids ids' : List NodeId}
  {outer : List (Nat × List NodeId)}

theorem Entails.refl (A : Stage) : A.Entails text A := fun _ _ _ => id

theorem Entails.of_eq (h : A = B) : A.Entails text B := h ▸ .refl A

theorem Entails.trans (h : A.Entails text B) (h' : B.Entails text C) : A.Entails text C :=
  fun _ s hs hA => h' s hs (h s hs hA)

theorem offset_le {s : State} (hs : Fits text s) (h : e.Within text s) :
    e.offset s ≤ s.scanner.cursor.start := by
  cases e with
  | start => exact Nat.le_refl _
  | last => exact hs.lastStop_le
  | upTo n => exact Nat.le_trans h.1 hs.lastStop_le

/-- Nodes that reach less far do not reach over the current token. -/
theorem Entails.start : Entails text ⟨e, pos, ids, outer⟩ ⟨.start, pos, ids, outer⟩ :=
  fun _ _ hs h => ⟨h.placed, trivial, h.unfinished.mono fun _ => offset_le hs h.within⟩

/-- Nodes that were made may be dropped. -/
theorem Entails.forget (h : ids'.Sublist ids) :
    Entails text ⟨e, pos, ids, outer⟩ ⟨e, pos, ids', outer⟩ :=
  fun _ _ _ hA => ⟨hA.placed, hA.within, hA.unfinished.forget h⟩

/-- Where an inner construct ends, its nodes are nodes of the one around it. -/
theorem Entails.merge :
    Entails text ⟨e, p, ids', (pos, ids) :: outer⟩ ⟨e, pos, ids ++ ids', outer⟩ :=
  fun _ _ _ h => ⟨h.placed, h.within, h.unfinished.merge⟩

end Stage

/-- Where the token has the property and the stage is reached, the step leads to the stage that its
answer says; with the ends of nodes if it reports no error. -/
def Builds (text : List Char) (P : Cursor → Prop) (A : Stage) (r : Reader α) (B : α → Stage) :
    Prop :=
  ∀ s a s', Fits text s → r.run s = some (a, s') → Moves text s s' ∧
    ∀ {clean : Prop}, (clean → s'.errors = #[]) → P s.scanner.cursor → A.Holds clean text s →
      (B a).Holds clean text s'

/-- What `Builds` says, where the tree has a property at first. -/
def BuildsWhere (K : Tree → Prop) (text : List Char) (P : Cursor → Prop) (A : Stage) (r : Reader α)
    (B : α → Stage) : Prop :=
  ∀ s a s', Fits text s → K s.tree → r.run s = some (a, s') → Moves text s s' ∧
    ∀ {clean : Prop}, (clean → s'.errors = #[]) → P s.scanner.cursor → A.Holds clean text s →
      (B a).Holds clean text s'

/-- A property that a tree keeps while it grows. -/
def Lasts (K : Tree → Prop) : Prop := ∀ ⦃t t' : Tree⦄, t.Grows t' → K t → K t'

/-- The step passes a token and adds the nodes `g` of its answer to the innermost construct. -/
def Yields (text : List Char) (P : Cursor → Prop) (r : Reader α) (g : α → List NodeId) : Prop :=
  ∀ A : Stage, Builds text P A r fun a => A.grown (g a)

/-- In a construct that has passed a token, the step adds the nodes `g` of its answer. -/
def Adds (text : List Char) (P : Cursor → Prop) (r : Reader α) (g : α → List NodeId) : Prop :=
  ∀ (pos : Nat) (ids : List NodeId) (outer : List (Nat × List NodeId)),
    Builds text P ⟨.last, pos, ids, outer⟩ r fun a => ⟨.last, pos, ids ++ g a, outer⟩

/-- Any token. -/
def AnyToken (_ : Cursor) : Prop := True

section Steps

variable {P Q : Cursor → Prop} {A A' : Stage} {x r : Reader α} {f : α → Reader β}
  {I : Cursor → α → Prop} {N : α → Prop} {B : α → Stage} {C : β → Stage}

/-- What passes over tokens keeps the nodes. -/
theorem Skips.keeps (h : Skips text r N) : Builds text P A r fun _ => A := by
  intro s a s' hs hrun
  obtain ⟨hmoves, htree, -⟩ := h s a s' hs hrun
  refine ⟨hmoves, fun _ _ hA => ⟨htree ▸ hA.placed, ?_, ?_⟩⟩
  · have hwithin := hA.within
    cases hedge : A.edge with
    | upTo n =>
      rw [hedge] at hwithin
      exact ⟨Nat.le_trans hwithin.1 hmoves.lastStop_le, hwithin.2⟩
    | start => trivial
    | last => trivial
  · rw [htree]
    refine hA.unfinished.mono fun _ => ?_
    cases A.edge with
    | upTo n => exact Nat.le_refl n
    | start => exact hmoves.start_le
    | last => exact hmoves.lastStop_le

/-- What passes a token reaches its end. -/
theorem Skips.moves (h : Skips text r fun _ => True) : Builds text P A r fun _ => A.moved := by
  intro s a s' hs hrun
  obtain ⟨hmoves, htree, hpass⟩ := h s a s' hs hrun
  refine ⟨hmoves, fun hclean _ hA => ⟨htree ▸ hA.placed, trivial, ?_⟩⟩
  rw [htree]
  exact hA.unfinished.mono fun hc =>
    Nat.le_trans (Stage.offset_le hs hA.within) (hpass (hclean hc) trivial)

section

variable {K : Tree → Prop} {L : α → Tree → Prop}

theorem Builds.given (h : Builds text P A r B) : BuildsWhere K text P A r B :=
  fun s a s' hs _ hrun => h s a s' hs hrun

theorem BuildsWhere.builds (h : BuildsWhere K text P A r B) (hK : ∀ t, K t) :
    Builds text P A r B :=
  fun s a s' hs hrun => h s a s' hs (hK _) hrun

/-- One step after another: the property that the tree has after the first is there for the second.
There was no error after the first if there is none after both. -/
theorem BuildsWhere.bind (hx : BuildsWhere K text P A x B)
    (hL : ∀ {s a s'}, Fits text s → x.run s = some (a, s') → Moves text s s' → K s.tree →
      L a s'.tree)
    (hf : ∀ a, BuildsWhere (L a) text AnyToken (B a) (f a) C) :
    BuildsWhere K text P A (x >>= f) C := by
  intro s b s'' hs hK hrun
  obtain ⟨a, s', hx', hf'⟩ := of_run_bind hrun
  obtain ⟨hmoves, hholds⟩ := hx s a s' hs hK hx'
  obtain ⟨hmoves', hholds'⟩ := hf a s' b s'' hmoves.fits (hL hs hx' hmoves hK) hf'
  refine ⟨hmoves.trans hmoves', fun hclean hp hA => ?_⟩
  exact hholds' hclean trivial (hholds (hmoves'.errors_eq_empty hclean) hp hA)

/-- A property that lasts is there after a step that does not need it. -/
theorem BuildsWhere.after (hK : Lasts K) (hx : Builds text P A x B)
    (hf : ∀ a, BuildsWhere K text AnyToken (B a) (f a) C) : BuildsWhere K text P A (x >>= f) C :=
  hx.given.bind (fun _ _ hmoves hK' => hK hmoves.grows hK') hf

/-- The first step leaves the tree with a property for the others. -/
theorem Builds.bindWhere (hx : Builds text P A x B)
    (hL : ∀ {s a s'}, Fits text s → x.run s = some (a, s') → L a s'.tree)
    (hf : ∀ a, BuildsWhere (L a) text AnyToken (B a) (f a) C) : Builds text P A (x >>= f) C :=
  (BuildsWhere.bind (K := fun _ => True) hx.given (fun hs hrun _ _ => hL hs hrun) hf).builds
    fun _ => trivial

theorem BuildsWhere.ite {b : Prop} [Decidable b] {y : Reader α}
    (hx : b → BuildsWhere K text P A x B) (hy : ¬ b → BuildsWhere K text P A y B) :
    BuildsWhere K text P A (if b then x else y) B := by
  split
  · next h => exact hx h
  · next h => exact hy h

end

namespace Builds

theorem on (h : Builds text P A r B) (hQ : ∀ c, Q c → P c) : Builds text Q A r B := by
  intro s a s' hs hrun
  obtain ⟨hmoves, hholds⟩ := h s a s' hs hrun
  exact ⟨hmoves, fun hclean hq => hholds hclean (hQ _ hq)⟩

/-- A step needs no more than it needs and leaves no less than it leaves. -/
theorem weaken {B' : α → Stage} (h : Builds text P A' r B') (hA : A.Entails text A')
    (hB : ∀ a, (B' a).Entails text (B a)) : Builds text P A r B := by
  intro s a s' hs hrun
  obtain ⟨hmoves, hholds⟩ := h s a s' hs hrun
  exact ⟨hmoves, fun hclean hp hs' => hB a s' hmoves.fits (hholds hclean hp (hA s hs hs'))⟩

theorem after {B' : α → Stage} (h : Builds text P A r B') (hB : ∀ a, (B' a).Entails text (B a)) :
    Builds text P A r B :=
  h.weaken (.refl A) hB

theorem before (h : Builds text P A' r B) (hA : A.Entails text A') : Builds text P A r B :=
  h.weaken hA fun a => .refl (B a)

theorem pure {a : α} (h : A.Entails text (B a)) : Builds text P A (pure a) B := by
  intro s b s' hs hrun
  obtain ⟨rfl, rfl⟩ := Prod.mk.inj (Option.some.inj hrun)
  exact ⟨hs.moves, fun _ _ => h _ hs⟩

theorem pureBind {a : α} (h : Builds text P A (f a) C) :
    Builds text P A (Pure.pure a >>= f) C := by
  rwa [pure_bind]

theorem bind (hx : Builds text P A x B) (hf : ∀ a, Builds text AnyToken (B a) (f a) C) :
    Builds text P A (x >>= f) C :=
  hx.bindWhere (L := fun _ _ => True) (fun _ _ => trivial) fun a => (hf a).given

/-- What was asked of the token is known of it and of the answer in the next step. -/
theorem askKnown (hx : Asks text x I)
    (hf : ∀ a, (∃ c, I c a) → Builds text (fun c => P c ∧ I c a) A (f a) C) :
    Builds text P A (x >>= f) C := by
  intro s b s'' hs hrun
  obtain ⟨a, s', hx', hf'⟩ := of_run_bind hrun
  obtain ⟨hsame, hI⟩ := hx s a s' hs hx'
  have hmoves := hsame.moves hs
  obtain ⟨hmoves', hholds'⟩ := hf a ⟨_, hI⟩ s' b s'' hmoves.fits hf'
  refine ⟨hmoves.trans hmoves', fun hclean hp hA => hholds' hclean ?_ ?_⟩
  · rw [hsame.cursor]
    exact ⟨hp, hI⟩
  · obtain ⟨-, hA'⟩ := (hx.skips.keeps (P := P) (A := A)) s a s' hs hx'
    exact hA' (hmoves'.errors_eq_empty hclean) hp hA

/-- What was asked of the token is known of it in the next step. -/
theorem ask (hx : Asks text x I) (hf : ∀ a, Builds text (fun c => P c ∧ I c a) A (f a) C) :
    Builds text P A (x >>= f) C :=
  askKnown hx fun a _ => hf a

theorem ite {b : Prop} [Decidable b] {y : Reader α} (hx : b → Builds text P A x B)
    (hy : ¬ b → Builds text P A y B) : Builds text P A (if b then x else y) B := by
  split
  · next h => exact hx h
  · next h => exact hy h

/-- One of two steps before another. -/
theorem either {b : Prop} [Decidable b] {y : Reader α} (hx : b → Builds text P A x B)
    (hy : ¬ b → Builds text P A y B) (hf : ∀ a, Builds text AnyToken (B a) (f a) C) :
    Builds text P A (if b then x >>= f else y >>= f) C :=
  .ite (fun h => (hx h).bind hf) fun h => (hy h).bind hf

/-- A step that is never taken. -/
theorem never {a : α} (hP : ∀ c, P c → False) : Builds text P A (Pure.pure a) B := by
  intro s b s' hs hrun
  obtain ⟨rfl, rfl⟩ := Prod.mk.inj (Option.some.inj hrun)
  exact ⟨hs.moves, fun _ hp => (hP _ hp).elim⟩

/-- The token is passed if it is of a kind. -/
theorem accept {k : Kind} {g : Bool → Reader β} (htrue : Builds text AnyToken A.moved (g true) C)
    (hfalse : Builds text AnyToken A (g false) C) :
    Builds text P A (Grammar.accept k >>= g) C := by
  intro s b s'' hs hrun
  obtain ⟨a, s', hx, hf⟩ := of_run_bind hrun
  obtain ⟨hmoves, htree, hpass⟩ := accept_skips k s a s' hs hx
  cases a with
  | false =>
    obtain ⟨-, hholds⟩ := (accept_skips k).keeps (P := P) (A := A) s false s' hs hx
    obtain ⟨hmoves', hholds'⟩ := hfalse s' b s'' hmoves.fits hf
    refine ⟨hmoves.trans hmoves', fun hclean hp hA => ?_⟩
    exact hholds' hclean trivial (hholds (hmoves'.errors_eq_empty hclean) hp hA)
  | true =>
    obtain ⟨hmoves', hholds'⟩ := htrue s' b s'' hmoves.fits hf
    refine ⟨hmoves.trans hmoves', fun hclean hp hA => hholds' hclean trivial ?_⟩
    refine ⟨htree ▸ hA.placed, trivial, ?_⟩
    rw [htree]
    exact hA.unfinished.mono fun hc => Nat.le_trans (Stage.offset_le hs hA.within)
      (hpass (hmoves'.errors_eq_empty hclean hc) rfl)

/-- A repetition: what holds of the first turn and is kept by every other one. -/
theorem repeating {step : σ → Reader (Turn σ)} {value : σ} {J : σ → Stage}
    (first : Builds text P A (step value) fun turn => J turn.value)
    (next : ∀ value, Builds text AnyToken (J value) (step value) fun turn => J turn.value) :
    Builds text P A (Grammar.repeating value step) J := by
  have hrest (fuel : Nat) (turn : Turn σ) : Builds text AnyToken (J turn.value)
      (match turn with
        | .again value => repeatUpTo step fuel value
        | .done value => Pure.pure value) J := by
    induction fuel generalizing turn with
    | zero =>
      cases turn with
      | again value => exact fun _ _ _ _ hrun => nomatch hrun
      | done value => exact .pure (.refl _)
    | succ fuel ih =>
      cases turn with
      | again value => exact (next value).bind ih
      | done value => exact .pure (.refl _)
  refine .on (.ask get_asks fun s => ?_) fun _ hp => hp
  cases s.limit with
  | zero => exact fun _ _ _ _ hrun => nomatch hrun
  | succ fuel => exact .on (first.bind (hrest fuel)) fun _ hp => hp.1

/-- A repetition that starts where every turn may start. -/
theorem loop {step : σ → Reader (Turn σ)} {value : σ} {J : σ → Stage}
    (hstart : A.Entails text (J value))
    (h : ∀ value, Builds text AnyToken (J value) (step value) fun turn => J turn.value) :
    Builds text P A (Grammar.repeating value step) J :=
  .repeating (((h value).on fun _ _ => trivial).before hstart) h

end Builds

/-! ### Elementary steps that build -/

/-- After a report there is an error, so the nodes may end wherever they are to end. -/
theorem errorHere_builds {notice : Notice} :
    Builds text P A (errorHere notice) fun _ => A.moved :=
  (errorHere_skips notice).moves

/-- A construct starts with the current token. -/
theorem Builds.opened {p : Nat} (hp : ∀ c, P c → c.start = p)
    (h : Builds text P (A.opened p) r B) : Builds text P A r B := by
  intro s a s' hs hrun
  obtain ⟨hmoves, hholds⟩ := h s a s' hs hrun
  refine ⟨hmoves, fun hclean hc hA => hholds hclean hc ⟨hA.placed, trivial, ?_⟩⟩
  obtain rfl := hp _ hc
  exact hA.unfinished.start (Stage.offset_le hs hA.within) hs.onToken.isCut_start

/-- A construct inside of another, from its first token to its last. -/
theorem Builds.inner {y : Nat → Reader β} {g : β → List NodeId}
    (h : ∀ p, Builds text (fun c => P c ∧ c.start = p) (A.opened p) (y p)
      fun b => (A.opened p).grown (g b)) :
    Builds text P A (tokenPos >>= y) fun b => A.grown (g b) :=
  .ask tokenPos_asks fun p => (Builds.opened (fun _ hc => hc.2) (h p)).after fun _ => .merge

section Make

variable {data : Data} {pos n stop : Nat} {flags : Flags} {ids : List NodeId}
  {outer : List (Nat × List NodeId)}

/-- Making a node of the nodes of a construct, which reach up to where it stops. -/
theorem Stage.Holds.add {s : State} {clean : Prop} (hplaced : s.tree.WellPlaced clean text)
    (h : s.tree.Unfinished clean text n ((pos, ids) :: outer))
    (htakes : s.tree.TakesUp text pos data ids) (hstop : clean → stop = n)
    (hcut : Text.IsCut text n) :
    (s.tree.add data pos stop flags).2.WellPlaced clean text ∧
      (s.tree.add data pos stop flags).2.Unfinished clean text stop
        ((pos, [s.tree.size]) :: outer) := by
  have h := h.mono fun hclean => Nat.le_of_eq (hstop hclean).symm
  exact ⟨hplaced.add h.2.1 htakes h.1 fun hclean => (hstop hclean).symm ▸ hcut, h.add htakes⟩

theorem make_moves {s s' : State} {id : Option NodeId} (hs : Fits text s)
    (hrun : (make data pos).run s = some (id, s')) : Moves text s s' := by
  obtain ⟨rfl, rfl⟩ := Prod.mk.inj (Option.some.inj hrun)
  exact hs.add ..

/-- A node that takes up what its tree has before the end of the last accepted token. -/
theorem Stage.Holds.make {s s' : State} {clean : Prop} {id : Option NodeId}
    (hA : Stage.Holds clean text ⟨.last, pos, ids, outer⟩ s) (hs : Fits text s)
    (htakes : s.tree.TakesUp text pos data ids)
    (hrun : (Grammar.make data pos).run s = some (id, s')) :
    Stage.Holds clean text ⟨.last, pos, id.toList, outer⟩ s' := by
  obtain ⟨rfl, rfl⟩ := Prod.mk.inj (Option.some.inj hrun)
  obtain ⟨hplaced, hadded⟩ :=
    Stage.Holds.add hA.placed hA.unfinished htakes (fun _ => rfl) hs.isCut_lastStop
  exact ⟨hplaced, trivial, hadded⟩

/-- Making a node where the tree has a property by which the node takes up what there is. -/
theorem makeBetween_buildsWhere {K : Tree → Prop} (htakes : ∀ t, K t → t.TakesUp text pos data ids)
    (hstop : ∀ c, P c → pos ≤ n → n ≤ c.start → stop = n) :
    BuildsWhere K text P ⟨.upTo n, pos, ids, outer⟩ (makeBetween data pos stop flags)
      fun id => ⟨.last, pos, id.toList, outer⟩ := by
  intro s a s' hs hK hrun
  obtain ⟨rfl, rfl⟩ := Prod.mk.inj (Option.some.inj hrun)
  refine ⟨hs.add .., fun {clean} _ hp hA => ?_⟩
  obtain ⟨hle, hcut⟩ := hA.within
  have hunfinished : s.tree.Unfinished clean text n ((pos, ids) :: outer) := hA.unfinished
  have hstop : clean → stop = n := fun hclean =>
    hstop _ hp (hunfinished.2.1.le hclean) (Nat.le_trans hle hs.lastStop_le)
  obtain ⟨hplaced, hadded⟩ := Stage.Holds.add hA.placed hunfinished (htakes _ hK) hstop hcut
  exact ⟨hplaced, trivial, hadded.mono fun hclean => Nat.le_trans (Nat.le_of_eq (hstop hclean)) hle⟩

theorem makeBetween_builds (hfilled : data.FilledBy ids)
    (hstop : ∀ c, P c → pos ≤ n → n ≤ c.start → stop = n) :
    Builds text P ⟨.upTo n, pos, ids, outer⟩ (makeBetween data pos stop flags)
      fun id => ⟨.last, pos, id.toList, outer⟩ :=
  (makeBetween_buildsWhere (K := fun _ => True)
    (fun _ _ => Tree.takesUp_of_filledBy hfilled) hstop).builds fun _ => trivial

/-- Making a node that stops where the current token starts. -/
theorem makeBefore_builds (hfilled : data.FilledBy ids) (hstop : ∀ c, P c → c.start = stop) :
    Builds text P ⟨.start, pos, ids, outer⟩ (makeBetween data pos stop flags)
      fun id => ⟨.start, pos, id.toList, outer⟩ := by
  intro s a s' hs hrun
  obtain ⟨rfl, rfl⟩ := Prod.mk.inj (Option.some.inj hrun)
  refine ⟨hs.add .., fun _ hp hA => ?_⟩
  obtain rfl := hstop _ hp
  obtain ⟨hplaced, hadded⟩ :=
    Stage.Holds.add hA.placed hA.unfinished (Tree.takesUp_of_filledBy hfilled) (fun _ => rfl)
      hs.onToken.isCut_start
  exact ⟨hplaced, trivial, hadded⟩

/-- A token that is known to stop at an offset is passed. -/
theorem advance_builds (hstop : ∀ c : Cursor, c.OnToken text → P c → c.stop = n) :
    Builds text P ⟨.start, pos, ids, outer⟩ advance fun _ => ⟨.upTo n, pos, ids, outer⟩ := by
  intro s a s' hs hrun
  obtain ⟨hmoves, htree, -⟩ := advance_skips s a s' hs hrun
  obtain rfl := (Prod.mk.inj (Option.some.inj hrun)).2
  refine ⟨hmoves, fun _ hp hA => ?_⟩
  obtain rfl := hstop _ hs.onToken hp
  exact ⟨hA.placed, ⟨Nat.le_refl _, hs.onToken.isCut_stop⟩,
    hA.unfinished.mono fun _ => hs.onToken.start_le_stop⟩

/-- The end of the last accepted token, where the nodes so far end. -/
theorem lastStop_builds :
    Builds text P ⟨.last, pos, ids, outer⟩ lastStop fun stop => ⟨.upTo stop, pos, ids, outer⟩ := by
  intro s a s' hs hrun
  obtain ⟨rfl, rfl⟩ := Prod.mk.inj (Option.some.inj hrun)
  exact ⟨hs.moves, fun _ _ hA => ⟨hA.placed, ⟨Nat.le_refl _, hs.isCut_lastStop⟩, hA.unfinished⟩⟩

theorem makeFlagged_builds (hfilled : data.FilledBy ids) :
    Builds text P ⟨.last, pos, ids, outer⟩ (makeFlagged data pos flags)
      fun id => ⟨.last, pos, id.toList, outer⟩ :=
  lastStop_builds.bind fun _ => makeBetween_builds hfilled fun _ _ _ _ => rfl

theorem make_builds (hfilled : data.FilledBy ids) :
    Builds text P ⟨.last, pos, ids, outer⟩ (make data pos)
      fun id => ⟨.last, pos, id.toList, outer⟩ :=
  lastStop_builds.bind fun _ => makeBetween_builds hfilled fun _ _ _ _ => rfl

theorem lasts_isNamed (data : Data) : Lasts fun t => t.IsNamed data :=
  fun _ _ hg h => h.grows hg

theorem make_buildsWhere {K : Tree → Prop} (hK : Lasts K)
    (htakes : ∀ t, K t → t.TakesUp text pos data ids) :
    BuildsWhere K text P ⟨.last, pos, ids, outer⟩ (make data pos)
      fun id => ⟨.last, pos, id.toList, outer⟩ :=
  .after hK lastStop_builds fun _ => makeBetween_buildsWhere htakes fun _ _ _ _ => rfl

/-- A node that keeps its text leaves out the nodes that were made on the way. -/
theorem makeVerbatim_builds {k : Syntax.VerbatimKind} :
    Builds text P ⟨.last, pos, ids, outer⟩ (makeVerbatim k pos)
      fun id => ⟨.last, pos, id.toList, outer⟩ := by
  refine .before ?_ (.forget (List.nil_sublist ids))
  exact .ask lastStop_asks fun _ => .ask (sourceText_asks _ _) fun _ =>
    make_builds (.of_children rfl rfl rfl)

end Make

/-! ### Nesting and context -/

theorem inContext_builds {g : Context → Context} (h : Builds text P A r B) :
    Builds text P A (inContext g r) B := by
  refine .on (.ask get_asks fun s => .ask (modify_asks fun _ => ⟨rfl, rfl, rfl, rfl⟩) fun _ => ?_)
    fun _ hp => hp
  refine .bind (h.on fun _ hp => hp.1.1) fun a => ?_
  exact .ask (modify_asks fun _ => ⟨rfl, rfl, rfl, rfl⟩) fun _ => .pure (.refl _)

theorem nested_builds {r : Reader (Option NodeId)}
    (h : Builds text P A r fun id => A.grown id.toList) :
    Builds text P A (nested r) fun id => A.grown id.toList := by
  refine .ask get_asks fun s => .ite (fun _ => ?_) fun _ => ?_
  · exact errorHere_builds.bind fun _ => .pure (.of_eq (by simp))
  · refine .ask (modify_asks fun _ => ⟨rfl, rfl, rfl, rfl⟩) fun _ => ?_
    refine .bind (h.on fun _ hp => hp.1.1) fun a => ?_
    exact .ask (modify_asks fun _ => ⟨rfl, rfl, rfl, rfl⟩) fun _ => .pure (.refl _)

theorem nested_skips {r : Reader (Option NodeId)} (h : Skips text r fun _ => True) :
    Skips text (nested r) fun _ => True := by
  refine .ask get_asks fun s => .ite (fun _ => ?_) fun _ => ?_
  · exact .passing (errorHere_skips _) fun _ => .pure id
  · refine .ask (modify_asks fun _ => ⟨rfl, rfl, rfl, rfl⟩) fun _ => .passing h fun a => ?_
    exact .ask (modify_asks fun _ => ⟨rfl, rfl, rfl, rfl⟩) fun _ => .pure id

end Steps

/-! ### Rules -/

/-- The rules that read over types and make no node. -/
def Rule.isSilent : Rule → Bool
  | .type | .union | .resultType | .typeArguments | .templateRest => true
  | _ => false

/-- The rules read over what they read, or make one node of it. -/
structure Places (text : List Char) (rules : Rules) : Prop where
  silent : ∀ {rule : Rule}, rule.isSilent = true → Skips text (rules rule) fun _ => True
  builds : ∀ {rule : Rule}, rule.isSilent = false →
    Yields text (fun c => rule.Suits c.kind) (rules rule) Option.toList
  /-- What is read to be bound may be. -/
  binds : ∀ {s s' : State} {id : NodeId}, Fits text s →
    (rules .bindingName).run s = some (some id, s') → ∃ d, s'.tree.data? id = some d ∧ d.MayBind

/-- A rule that suits every token. -/
theorem Places.yields {rules : Rules} (hr : Places text rules) {P : Cursor → Prop} (rule : Rule)
    (hsilent : rule.isSilent = false) (hsuits : ∀ k, rule.Suits k) :
    Yields text P (rules rule) Option.toList :=
  fun A => (hr.builds hsilent A).on fun _ _ => hsuits _

end Unchain.Grammar
