import Unchain.Proofs.Placing.SourceFile
import Unchain.Proofs.Syntax.Quiet

/-!
# What reading finds

A reader keeps the tree calm: every node that it makes has its parts where they
should be, and every name starts before the current token. To see this one has to
know, where a node is made, what its parts are. `Findings` says what is known of
the nodes that were found since a construct started: which of them are quiet, and
which stand in a row, each apart from those before it. Once found this stays
true, so no more than the last construct has to be kept in mind.

`Gathers` says what a step finds. Most steps belong to one of two kinds: what
reads an expression finds quiet nodes (`Hushes`), what reads a statement finds
nodes that go on with the row (`Lines`). None of this depends on errors.
-/

namespace Unchain.Grammar

open Syntax (Data Flags Function FunctionKind NodeId NodeList Tree)
open Token (Cursor Kind Scanner)

variable {text : List Char} {α β γ σ : Type}

/-! ### Findings -/

/-- The nodes that were found in a construct: where it starts, which of them are quiet, and which
stand in a row. -/
structure Findings where
  pos : Nat
  quiet : List NodeId
  row : List NodeId

namespace Findings

/-- A construct in which nothing was found so far. -/
abbrev opened (pos : Nat) : Findings := ⟨pos, [], []⟩

/-- Quiet nodes were found. -/
abbrev hushed (F : Findings) (ids : List NodeId) : Findings := { F with quiet := F.quiet ++ ids }

/-- The row goes on with nodes. -/
abbrev lined (F : Findings) (ids : List NodeId) : Findings := { F with row := F.row ++ ids }

@[simp] theorem hushed_nil (F : Findings) : F.hushed [] = F := by simp [hushed]

@[simp] theorem lined_nil (F : Findings) : F.lined [] = F := by simp [lined]

/-- The tree is calm and has what was found. -/
structure Holds (F : Findings) (s : State) : Prop where
  calm : s.tree.Calm
  names : s.tree.NamesBefore s.scanner.cursor.start
  pos_le : F.pos ≤ s.scanner.cursor.start
  quiet : ∀ id ∈ F.quiet, s.tree.Quiet id ∧ s.tree.IsFrom F.pos id
  row : ∀ id ∈ F.row, s.tree.IsFrom F.pos id
  apart : F.row.Pairwise s.tree.Apart

/-- Where the first is found the second is. -/
def Entails (F G : Findings) : Prop := ∀ ⦃s⦄, F.Holds s → G.Holds s

variable {F G : Findings} {s s' : State} {pos : Nat} {ids quiet row : List NodeId}

theorem Entails.refl (F : Findings) : F.Entails F := fun _ => id

theorem Entails.of_eq (h : F = G) : F.Entails G := h ▸ .refl F

/-- What was found may be forgotten. -/
theorem Entails.forget (hquiet : G.quiet ⊆ F.quiet) (hrow : G.row.Sublist F.row)
    (hpos : G.pos = F.pos) : F.Entails G := by
  obtain ⟨pos, quiet, row⟩ := G
  obtain rfl : pos = F.pos := hpos
  exact fun s h => ⟨h.calm, h.names, h.pos_le, fun id hid => h.quiet id (hquiet hid),
    fun id hid => h.row id (hrow.subset hid), h.apart.sublist hrow⟩

/-- Quiet nodes may stand in a row. -/
theorem Entails.line : Entails ⟨pos, ids, []⟩ ⟨pos, [], ids⟩ :=
  fun _ h => ⟨h.calm, h.names, h.pos_le, nofun, fun id hid => (h.quiet id hid).2,
    List.pairwise_of_forall_mem_list fun a ha _ _ => .inl (h.quiet a ha).1⟩

/-- A construct in which nothing was found starts before the current token, or with it. -/
theorem holds_opened (hcalm : s.tree.Calm)
    (hnames : s.tree.NamesBefore s.scanner.cursor.start) (hle : pos ≤ s.scanner.cursor.start) :
    (opened pos).Holds s :=
  ⟨hcalm, hnames, hle, nofun, nofun, .nil⟩

/-- A construct starts with the current token. -/
theorem Holds.open (h : F.Holds s) : (opened s.scanner.cursor.start).Holds s :=
  holds_opened h.calm h.names (Nat.le_refl _)

/-- What was found is there later on. -/
theorem Holds.later (h : F.Holds s) (hm : Moves text s s') (hG : G.Holds s') : F.Holds s' where
  calm := hG.calm
  names := hG.names
  pos_le := Nat.le_trans h.pos_le hm.start_le
  quiet id hid := ⟨(h.quiet id hid).1.grows hm.grows, (h.quiet id hid).2.grows hm.grows⟩
  row id hid := (h.row id hid).grows hm.grows
  apart := h.apart.imp_of_mem fun ha hb hapart =>
    hapart.grows h.calm (h.row _ ha) (h.row _ hb) hm.grows

/-- Reading on without making a node. -/
theorem Holds.moves (h : F.Holds s) (hm : Moves text s s') (htree : s'.tree = s.tree) :
    F.Holds s' := by
  refine h.later hm (G := F) ⟨?_, ?_, ?_, ?_, ?_, ?_⟩
  · exact htree ▸ h.calm
  · exact htree ▸ h.names.mono hm.start_le
  · exact Nat.le_trans h.pos_le hm.start_le
  · exact htree ▸ h.quiet
  · exact htree ▸ h.row
  · exact htree ▸ h.apart

/-- What is found quiet in a construct is so for the one around it. -/
theorem Holds.hushed (h : F.Holds s) (hm : Moves text s s')
    (hin : Holds ⟨s.scanner.cursor.start, ids, []⟩ s') : (F.hushed ids).Holds s' := by
  obtain ⟨calm, names, pos_le, quiet, row, apart⟩ := h.later hm hin
  refine ⟨calm, names, pos_le, fun id hid => ?_, row, apart⟩
  rcases List.mem_append.mp hid with hid | hid
  · exact quiet id hid
  · obtain ⟨hquiet, hfrom⟩ := hin.quiet id hid
    exact ⟨hquiet, hfrom.mono h.pos_le⟩

/-- What is found in a row after something else goes on with its row: it starts after all names that
there were. -/
theorem Holds.lined (h : F.Holds s) (hm : Moves text s s')
    (hin : Holds ⟨s.scanner.cursor.start, [], ids⟩ s') : (F.lined ids).Holds s' := by
  obtain ⟨calm, names, pos_le, quiet, row, apart⟩ := h.later hm hin
  refine ⟨calm, names, pos_le, quiet, fun id hid => ?_,
    List.pairwise_append.mpr ⟨apart, hin.apart, fun a ha b hb => ?_⟩⟩
  · rcases List.mem_append.mp hid with hid | hid
    · exact row id hid
    · exact (hin.row id hid).mono h.pos_le
  · exact Tree.apart_of_namesBefore h.calm h.names hm.grows (h.row a ha) (hin.row b hb)

/-- A node is made whose parts are where they should be. -/
theorem Holds.add {data : Data} {stop : Nat} {flags : Flags} (h : F.Holds s) (hpos : F.pos = pos)
    (hat : s.tree.CalmAt data pos) (hname : data.isName = true → pos < s.scanner.cursor.start) :
    Holds ⟨pos, if data.isQuiet then [s.tree.size] else [], [s.tree.size]⟩
      { s with tree := (s.tree.add data pos stop flags).2 } := by
  obtain ⟨p, hp⟩ := Tree.Grows.node?_add_self s.tree data pos stop flags
  have hfrom : (s.tree.add data pos stop flags).2.IsFrom pos s.tree.size := ⟨_, hp, Nat.le_refl _⟩
  refine ⟨h.calm.add hat, h.names.add hname, hpos ▸ h.pos_le, fun id hid => ?_, fun id hid => ?_,
    List.pairwise_singleton ..⟩
  · obtain ⟨hquiet, hid⟩ := List.mem_ite_nil_right.mp hid
    obtain rfl := List.mem_singleton.mp hid
    exact ⟨⟨data, Tree.data?_of_node? hp, hquiet⟩, hfrom⟩
  · obtain rfl := List.mem_singleton.mp hid
    exact hfrom

end Findings

/-! ### Steps -/

/-- Where the token has the property and `F` was found, the step finds what `G` says of its
answer. -/
def Gathers (text : List Char) (P : Cursor → Prop) (F : Findings) (r : Reader α)
    (G : α → Findings) : Prop :=
  ∀ s a s', Fits text s → r.run s = some (a, s') → Moves text s s' ∧
    (P s.scanner.cursor → F.Holds s → (G a).Holds s')

/-- The step finds the quiet nodes `g` of its answer. -/
def Hushes (text : List Char) (P : Cursor → Prop) (r : Reader α) (g : α → List NodeId) : Prop :=
  ∀ F : Findings, Gathers text P F r fun a => F.hushed (g a)

/-- The step goes on with the row by the nodes `g` of its answer. -/
def Lines (text : List Char) (P : Cursor → Prop) (r : Reader α) (g : α → List NodeId) : Prop :=
  ∀ F : Findings, Gathers text P F r fun a => F.lined (g a)

section Steps

variable {P Q : Cursor → Prop} {F F' : Findings} {x r : Reader α} {f : α → Reader β}
  {I : Cursor → α → Prop} {N : α → Prop} {G : α → Findings} {H : β → Findings}

theorem Skips.finds (h : Skips text r N) : Gathers text P F r fun _ => F := by
  intro s a s' hs hrun
  obtain ⟨hmoves, htree, -⟩ := h s a s' hs hrun
  exact ⟨hmoves, fun _ hF => hF.moves hmoves htree⟩

namespace Gathers

theorem on (h : Gathers text P F r G) (hQ : ∀ c, Q c → P c) : Gathers text Q F r G := by
  intro s a s' hs hrun
  obtain ⟨hmoves, hholds⟩ := h s a s' hs hrun
  exact ⟨hmoves, fun hq => hholds (hQ _ hq)⟩

theorem before (h : Gathers text P F' r G) (hF : F.Entails F') : Gathers text P F r G := by
  intro s a s' hs hrun
  obtain ⟨hmoves, hholds⟩ := h s a s' hs hrun
  exact ⟨hmoves, fun hp hF' => hholds hp (hF hF')⟩

theorem after {G' : α → Findings} (h : Gathers text P F r G') (hG : ∀ a, (G' a).Entails (G a)) :
    Gathers text P F r G := by
  intro s a s' hs hrun
  obtain ⟨hmoves, hholds⟩ := h s a s' hs hrun
  exact ⟨hmoves, fun hp hF => hG a (hholds hp hF)⟩

theorem pure {a : α} (h : F.Entails (G a)) : Gathers text P F (pure a) G := by
  intro s b s' hs hrun
  obtain ⟨rfl, rfl⟩ := Prod.mk.inj (Option.some.inj hrun)
  exact ⟨hs.moves, fun _ hF => h hF⟩

theorem pureBind {a : α} (h : Gathers text P F (f a) H) :
    Gathers text P F (Pure.pure a >>= f) H := by
  rwa [pure_bind]

theorem bind (hx : Gathers text P F x G) (hf : ∀ a, Gathers text AnyToken (G a) (f a) H) :
    Gathers text P F (x >>= f) H := by
  intro s b s'' hs hrun
  obtain ⟨a, s', hx', hf'⟩ := of_run_bind hrun
  obtain ⟨hmoves, hholds⟩ := hx s a s' hs hx'
  obtain ⟨hmoves', hholds'⟩ := hf a s' b s'' hmoves.fits hf'
  exact ⟨hmoves.trans hmoves', fun hp hF => hholds' trivial (hholds hp hF)⟩

/-- A step of two steps, as the first two of three. -/
theorem regroup {y : α → Reader β} {z : β → Reader γ} {K : γ → Findings}
    (h : Gathers text P F ((x >>= y) >>= z) K) : Gathers text P F (x >>= fun a => y a >>= z) K := by
  rwa [bind_assoc] at h

/-- What was asked of the token is known of it in the next step. -/
theorem ask (hx : Asks text x I) (hf : ∀ a, Gathers text (fun c => P c ∧ I c a) F (f a) H) :
    Gathers text P F (x >>= f) H := by
  intro s b s'' hs hrun
  obtain ⟨a, s', hx', hf'⟩ := of_run_bind hrun
  obtain ⟨hsame, hI⟩ := hx s a s' hs hx'
  have hmoves := hsame.moves hs
  obtain ⟨hmoves', hholds⟩ := hf a s' b s'' hmoves.fits hf'
  refine ⟨hmoves.trans hmoves', fun hp hF => hholds ?_ (hF.moves hmoves hsame.tree)⟩
  rw [hsame.cursor]
  exact ⟨hp, hI⟩

theorem ite {b : Prop} [Decidable b] {y : Reader α} (hx : b → Gathers text P F x G)
    (hy : ¬ b → Gathers text P F y G) : Gathers text P F (if b then x else y) G := by
  split
  · next h => exact hx h
  · next h => exact hy h

/-- One of two steps before another. -/
theorem either {b : Prop} [Decidable b] {y : Reader α} (hx : b → Gathers text P F x G)
    (hy : ¬ b → Gathers text P F y G) (hf : ∀ a, Gathers text AnyToken (G a) (f a) H) :
    Gathers text P F (if b then x >>= f else y >>= f) H :=
  .ite (fun h => (hx h).bind hf) fun h => (hy h).bind hf

/-- A step that is taken or left out before another. -/
theorem optional {b : Prop} [Decidable b] {y : Reader β} (hx : Gathers text P F x fun _ => F)
    (hy : Gathers text AnyToken F y H) :
    Gathers text P F (if b then x >>= fun _ => y else y) H :=
  .ite (fun _ => hx.bind fun _ => hy) fun _ => hy.on fun _ _ => trivial

/-- A repetition that finds in every turn what it needs for the next one. -/
theorem loop {step : σ → Reader (Turn σ)} {value : σ} {J : σ → Findings}
    (hstart : F.Entails (J value))
    (h : ∀ value, Gathers text AnyToken (J value) (step value) fun turn => J turn.value) :
    Gathers text P F (repeating value step) J := by
  have hrepeat (fuel : Nat) (value : σ) :
      Gathers text AnyToken (J value) (repeatUpTo step fuel value) J := by
    induction fuel generalizing value with
    | zero => exact fun _ _ _ _ hrun => nomatch hrun
    | succ fuel ih =>
      refine (h value).bind fun turn => ?_
      cases turn with
      | again value => exact ih value
      | done value => exact .pure (.refl _)
  exact .ask get_asks fun s => ((hrepeat _ value).before hstart).on fun _ _ => trivial

/-- A token is passed that is not the end of the text. -/
theorem advance {p : Nat} {g : Unit → Reader β} (hp : ∀ c, P c → c.kind ≠ .endOfFile ∧ c.start = p)
    (h : Gathers text (fun c => p < c.start) F (g ()) H) :
    Gathers text P F (Grammar.advance >>= g) H := by
  intro s b s'' hs hrun
  obtain ⟨_, s', hx, hf⟩ := of_run_bind hrun
  obtain ⟨hmoves, htree, -⟩ := advance_skips s _ s' hs hx
  obtain ⟨hmoves', hholds⟩ := h s' b s'' hmoves.fits hf
  refine ⟨hmoves.trans hmoves', fun hc hF => hholds ?_ (hF.moves hmoves htree)⟩
  obtain ⟨hk, rfl⟩ := hp _ hc
  -- The token is not empty, and the next one starts behind it.
  obtain rfl := (Prod.mk.inj (Option.some.inj hx)).2
  obtain ⟨hon, hsuffix⟩ := Scanner.onToken_scan hs.onToken.endsIn
  exact Nat.lt_of_lt_of_le (hs.onToken.start_lt_stop hk) (stop_le_start hs.onToken hon hsuffix)

/-! ### Constructs inside of others -/

/-- A step on a token that is known to start at `p` reads a construct. -/
theorem hushing {p : Nat} {g : α → List NodeId} (hp : ∀ c, P c → c.start = p)
    (h : Gathers text P (.opened p) r fun a => ⟨p, g a, []⟩) :
    Gathers text P F r fun a => F.hushed (g a) := by
  intro s a s' hs hrun
  obtain ⟨hmoves, hholds⟩ := h s a s' hs hrun
  refine ⟨hmoves, fun hc hF => hF.hushed hmoves ?_⟩
  obtain rfl := hp _ hc
  exact hholds hc hF.open

/-- A step on a token that is known to start at `p` reads a construct. -/
theorem lining {p : Nat} {g : α → List NodeId} (hp : ∀ c, P c → c.start = p)
    (h : Gathers text P (.opened p) r fun a => ⟨p, [], g a⟩) :
    Gathers text P F r fun a => F.lined (g a) := by
  intro s a s' hs hrun
  obtain ⟨hmoves, hholds⟩ := h s a s' hs hrun
  refine ⟨hmoves, fun hc hF => hF.lined hmoves ?_⟩
  obtain rfl := hp _ hc
  exact hholds hc hF.open

end Gathers

/-- A quiet construct, from its first token to its last. -/
theorem Hushes.inner {y : Nat → Reader β} {g : β → List NodeId}
    (h : ∀ p, Gathers text (fun c => P c ∧ c.start = p) (.opened p) (y p) fun b => ⟨p, g b, []⟩) :
    Hushes text P (tokenPos >>= y) g :=
  fun _ => .ask tokenPos_asks fun p => .hushing (fun _ hc => hc.2) (h p)

/-- A construct with statements, from its first token to its last. -/
theorem Lines.inner {y : Nat → Reader β} {g : β → List NodeId}
    (h : ∀ p, Gathers text (fun c => P c ∧ c.start = p) (.opened p) (y p) fun b => ⟨p, [], g b⟩) :
    Lines text P (tokenPos >>= y) g :=
  fun _ => .ask tokenPos_asks fun p => .lining (fun _ hc => hc.2) (h p)

/-! ### Making nodes -/

section Make

variable {data : Data} {pos stop : Nat} {flags : Flags} {quiet row : List NodeId}

theorem makeBetween_gathers (hat : ∀ t : Tree, (∀ id ∈ quiet, t.Quiet id ∧ t.IsFrom pos id) →
      (∀ id ∈ row, t.IsFrom pos id) → row.Pairwise t.Apart → t.CalmAt data pos)
    (hname : data.isName = true → ∀ c, P c → pos < c.start) :
    Gathers text P ⟨pos, quiet, row⟩ (makeBetween data pos stop flags)
      fun id => ⟨pos, if data.isQuiet then id.toList else [], id.toList⟩ := by
  intro s a s' hs hrun
  obtain ⟨rfl, rfl⟩ := Prod.mk.inj (Option.some.inj hrun)
  refine ⟨hs.add .., fun hp hF => ?_⟩
  exact hF.add rfl (hat _ hF.quiet hF.row hF.apart) fun hn => hname hn _ hp

/-- Any two nodes of which one is quiet are apart. -/
theorem pairwise_apart_of_quiet {t : Tree} {ids : List NodeId} (h : ∀ id ∈ ids, t.Quiet id) :
    ids.Pairwise t.Apart :=
  List.pairwise_of_forall_mem_list fun a ha _ _ => .inl (h a ha)

/-- A quiet node that is no name and no function is made of quiet parts. -/
theorem makeBetween_quiet (hquiet : data.isQuiet = true) (hname : data.isName = false)
    (hparts : data.children ⊆ quiet) :
    Gathers text P ⟨pos, quiet, row⟩ (makeBetween data pos stop flags)
      fun id => ⟨pos, id.toList, []⟩ := by
  refine .after (makeBetween_gathers (fun t hq _ _ => ?_) fun hn => ?_) fun id => ?_
  · exact ⟨fun child hc => (hq child (hparts hc)).2,
      fun part hpart => (hq part (hparts (data.quietParts_subset hpart))).1,
      pairwise_apart_of_quiet fun child hc => (hq child (hparts hc)).1⟩
  · rw [hname] at hn
    cases hn
  · rw [hquiet, if_pos rfl]
    exact .forget (List.Subset.refl _) (List.nil_sublist _) rfl

/-- A name is made after its token was passed. -/
theorem makeBetween_name (hname : data.isName = true) (hp : ∀ c, P c → pos < c.start) :
    Gathers text P ⟨pos, quiet, row⟩ (makeBetween data pos stop flags)
      fun id => ⟨pos, id.toList, []⟩ := by
  obtain ⟨hquiet, hchildren⟩ := Data.children_of_isName hname
  have hparts : data.quietParts ⊆ [] := hchildren ▸ data.quietParts_subset
  refine .after (makeBetween_gathers (fun t _ _ _ => ?_) fun _ => hp) fun id => ?_
  · refine ⟨fun child hc => ?_, fun part hpart => absurd (hparts hpart) List.not_mem_nil, ?_⟩
    · rw [hchildren] at hc
      cases hc
    · rw [hchildren]
      exact .nil
  · rw [hquiet, if_pos rfl]
    exact .forget (List.Subset.refl _) (List.nil_sublist _) rfl

/-- A function is quiet whatever its body is. -/
theorem makeBetween_function {k : FunctionKind} {f : Function}
    (hparts : (Data.function k f).quietParts ⊆ quiet) (hbody : f.body.toList ⊆ quiet ++ row) :
    Gathers text P ⟨pos, quiet, row⟩ (makeBetween (.function k f) pos stop flags)
      fun id => ⟨pos, id.toList, []⟩ := by
  refine .after (makeBetween_gathers (fun t hq hr _ => ?_) nofun) fun id =>
    .forget (List.Subset.refl _) (List.nil_sublist _) rfl
  have hquiet (part : NodeId) (h : part ∈ (Data.function k f).quietParts) : t.Quiet part :=
    (hq part (hparts h)).1
  have hsplit := Data.children_function k f
  refine ⟨fun child hc => ?_, hquiet, ?_⟩
  · rw [hsplit] at hc
    rcases List.mem_append.mp hc with hc | hc
    · exact (hq child (hparts hc)).2
    · rcases List.mem_append.mp (hbody hc) with hc | hc
      · exact (hq child hc).2
      · exact hr child hc
  · -- There is one part at most that is not quiet.
    rw [hsplit]
    refine List.pairwise_append.mpr ⟨pairwise_apart_of_quiet hquiet, ?_, fun a ha b _ =>
      .inl (hquiet a ha)⟩
    cases f.body with
    | none => exact .nil
    | some body => exact List.pairwise_singleton ..

/-- A statement is made of the nodes in the row, with quiet parts before and behind them. -/
theorem makeBetween_statement (front back : List NodeId)
    (hname : data.isName = false) (hparts : data.quietParts ⊆ quiet)
    (hchildren : data.children = front ++ row ++ back) (hfront : front ⊆ quiet)
    (hback : back ⊆ quiet) :
    Gathers text P ⟨pos, quiet, row⟩ (makeBetween data pos stop flags)
      fun id => ⟨pos, [], id.toList⟩ := by
  refine .after (makeBetween_gathers (fun t hq hr hapart => ?_) fun hn => ?_) fun id =>
    .forget (List.nil_subset _) (List.Sublist.refl _) rfl
  · refine ⟨fun child hc => ?_, fun part hpart => (hq part (hparts hpart)).1, ?_⟩
    · rw [hchildren] at hc
      rcases List.mem_append.mp hc with hc | hc
      · rcases List.mem_append.mp hc with hc | hc
        · exact (hq child (hfront hc)).2
        · exact hr child hc
      · exact (hq child (hback hc)).2
    · rw [hchildren]
      refine List.pairwise_append.mpr ⟨List.pairwise_append.mpr ⟨?_, hapart, ?_⟩, ?_, ?_⟩
      · exact pairwise_apart_of_quiet fun id hid => (hq id (hfront hid)).1
      · exact fun a ha _ _ => .inl (hq a (hfront ha)).1
      · exact pairwise_apart_of_quiet fun id hid => (hq id (hback hid)).1
      · exact fun _ _ b hb => .inr (.inl (hq b (hback hb)).1)
  · rw [hname] at hn
    cases hn

theorem make_quiet (hquiet : data.isQuiet = true) (hname : data.isName = false)
    (hparts : data.children ⊆ quiet) :
    Gathers text P ⟨pos, quiet, row⟩ (make data pos) fun id => ⟨pos, id.toList, []⟩ :=
  .ask lastStop_asks fun _ => makeBetween_quiet hquiet hname hparts

theorem makeFlagged_quiet (hquiet : data.isQuiet = true) (hname : data.isName = false)
    (hparts : data.children ⊆ quiet) :
    Gathers text P ⟨pos, quiet, row⟩ (makeFlagged data pos flags)
      fun id => ⟨pos, id.toList, []⟩ :=
  .ask lastStop_asks fun _ => makeBetween_quiet hquiet hname hparts

/-- A node that keeps its text has no parts. -/
theorem makeVerbatim_quiet {k : Syntax.VerbatimKind} :
    Gathers text P ⟨pos, quiet, row⟩ (makeVerbatim k pos) fun id => ⟨pos, id.toList, []⟩ :=
  .ask lastStop_asks fun _ => .ask (sourceText_asks _ _) fun _ =>
    make_quiet rfl rfl (List.nil_subset _)

theorem make_statement (front back : List NodeId)
    (hname : data.isName = false) (hparts : data.quietParts ⊆ quiet)
    (hchildren : data.children = front ++ row ++ back) (hfront : front ⊆ quiet)
    (hback : back ⊆ quiet) :
    Gathers text P ⟨pos, quiet, row⟩ (make data pos) fun id => ⟨pos, [], id.toList⟩ :=
  .ask lastStop_asks fun _ => makeBetween_statement front back hname hparts hchildren hfront hback

/-- The usual statement: its expressions stand before the statements in it. -/
theorem make_compound (hname : data.isName = false) (hparts : data.quietParts = [])
    (hchildren : data.children = quiet ++ row) :
    Gathers text P ⟨pos, quiet, row⟩ (make data pos) fun id => ⟨pos, [], id.toList⟩ :=
  make_statement quiet [] hname (hparts ▸ List.nil_subset _) (by simpa using hchildren)
    (List.Subset.refl _) (List.nil_subset _)

end Make

/-! ### Nesting and context -/

theorem inContext_gathers {g : Context → Context} (h : Gathers text P F r G) :
    Gathers text P F (inContext g r) G := by
  have hsame (f : State → Context) (s : State) : Same s { s with context := f s } :=
    ⟨rfl, rfl, rfl, rfl⟩
  refine .ask get_asks fun s => .ask (modify_asks (hsame fun _ => g s.context)) fun _ => ?_
  refine .bind (h.on fun _ hp => hp.1.1) fun a => ?_
  exact .ask (modify_asks (hsame fun _ => s.context)) fun _ => .pure (.refl _)

/-- At the limit of nesting nothing is read and nothing is found. -/
theorem nested_gathers {r : Reader (Option NodeId)} {G : Option NodeId → Findings}
    (h : Gathers text P F r G) (hnone : F.Entails (G none)) : Gathers text P F (nested r) G := by
  have hsame (s : State) (depth : Nat) : Same s { s with depth } := ⟨rfl, rfl, rfl, rfl⟩
  refine .ask get_asks fun s => .ite (fun _ => ?_) fun _ => ?_
  · exact (errorHere_skips _).finds.bind fun _ => .pure hnone
  · refine .ask (modify_asks fun _ => hsame _ _) fun _ => ?_
    refine .bind (h.on fun _ hp => hp.1.1) fun a => ?_
    exact .ask (modify_asks fun _ => hsame _ _) fun _ => .pure (.refl _)

end Steps

/-! ### Rules -/

/-- The rules that read statements. -/
def Rule.isVocal : Rule → Bool
  | .statement | .block => true
  | _ => false

/-- The rules find what they make: statements, or nodes that are quiet. -/
structure Scopes (text : List Char) (rules : Rules) : Prop extends Places text rules where
  hushes : ∀ {rule : Rule}, rule.isSilent = false → rule.isVocal = false →
    Hushes text (fun c => rule.Suits c.kind) (rules rule) Option.toList
  lines : ∀ {rule : Rule}, rule.isVocal = true →
    Lines text AnyToken (rules rule) Option.toList

/-- A rule that suits every token. -/
theorem Scopes.hush {rules : Rules} (hr : Scopes text rules) {P : Cursor → Prop} (rule : Rule)
    (hsilent : rule.isSilent = false) (hvocal : rule.isVocal = false)
    (hsuits : ∀ k, rule.Suits k) : Hushes text P (rules rule) Option.toList :=
  fun F => (hr.hushes hsilent hvocal F).on fun _ _ => hsuits _

theorem Scopes.line {rules : Rules} (hr : Scopes text rules) {P : Cursor → Prop} (rule : Rule)
    (hvocal : rule.isVocal = true) : Lines text P (rules rule) Option.toList :=
  fun F => (hr.lines hvocal F).on fun _ _ => trivial

end Unchain.Grammar
