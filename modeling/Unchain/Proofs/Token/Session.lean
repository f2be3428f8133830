import Unchain.Token.Scanner

/-!
# Going back to a checkpoint

Who looks ahead keeps checkpoints on a stack: `save` puts one on it, `restore`
goes back to the one on top. A checkpoint counts the errors and does not hold
them, so it is as good as a copy of the scanner only while the errors that were
there when it was made stay in front of all others. Reading adds errors behind
them (`Logs`). Going back takes errors away, but never those that an older
checkpoint counts, because each checkpoint counts at least the errors of the
ones below it; `Keeps` says what holds above a checkpoint, `Keeps.step` that an
operation keeps it and `Keeps.run` that a run does.

Operations are nested if no `restore` lacks a checkpoint (`IsNested`). Each
`restore` then has a `save` that it belongs to (`exists_matching_save`), and it
brings the scanner back to what it was there (`restore_brings_back`).
-/

namespace Unchain.Token

namespace Scanner

/-! ### Errors of a scanner -/

/-- The step adds to the errors and changes none; it steps over trivia as before. -/
structure Logs (f : Scanner → Scanner) : Prop where
  errors : ∀ s, s.errors.toList <+: (f s).errors.toList
  skipTrivia : ∀ s, (f s).skipTrivia = s.skipTrivia

theorem prefix_errors_place (s : Scanner) (cs : List Char) (start : Nat) (l : Lexeme) :
    s.errors.toList <+: (s.place cs start l).errors.toList := by
  rw [place]
  cases l.error with
  | none => exact List.prefix_refl _
  | some notice =>
    simp only [Array.toList_push]
    exact List.prefix_append _ _

theorem prefix_errors_scanOver (bound : List Char) (s : Scanner) :
    s.errors.toList <+: (scanOver bound s).errors.toList := by
  induction bound generalizing s with
  | nil => exact prefix_errors_place _ _ _ _
  | cons c bound ih =>
    rw [scanOver]
    split
    · exact (prefix_errors_place _ _ _ _).trans (ih _)
    · exact prefix_errors_place _ _ _ _

theorem logs_scan : Logs scan where
  errors s := prefix_errors_scanOver s.cursor.rest
    { s with cursor := { s.cursor with fullStart := s.cursor.stop, lineBreakBefore := false } }
  skipTrivia := scan_skipTrivia

theorem logs_rescanGreater : Logs rescanGreater := by
  constructor <;> intro s <;> rw [rescanGreater] <;> split
  · split <;> exact List.prefix_refl _
  · exact List.prefix_refl _
  · split <;> rfl
  · rfl

theorem logs_rescanSlash : Logs rescanSlash := by
  constructor <;> intro s <;> rw [rescanSlash] <;> split
  · exact prefix_errors_place _ _ _ _
  · exact List.prefix_refl _
  · rfl
  · rfl

theorem logs_rescanTemplate : Logs rescanTemplate := by
  constructor <;> intro s <;> rw [rescanTemplate] <;> split
  · exact prefix_errors_place _ _ _ _
  · exact List.prefix_refl _
  · rfl
  · rfl

end Scanner

/-! ### Operations -/

/-- What can be done with a scanner. -/
inductive Operation where
  | scan
  | rescanGreater
  | rescanSlash
  | rescanTemplate
  | save
  | restore
  deriving DecidableEq, Repr

/-- A scanner and the checkpoints to come back to, the newest first. -/
structure Session where
  scanner : Scanner
  checkpoints : List Checkpoint := []
  deriving Repr

namespace Session

/-- A session before the first token of a text. -/
def ofText (text : List Char) (skipTrivia : Bool) : Session :=
  { scanner := .ofText text skipTrivia }

/-- One operation. Without a checkpoint there is nothing to go back to. -/
def step (s : Session) : Operation → Session
  | .scan => { s with scanner := s.scanner.scan }
  | .rescanGreater => { s with scanner := s.scanner.rescanGreater }
  | .rescanSlash => { s with scanner := s.scanner.rescanSlash }
  | .rescanTemplate => { s with scanner := s.scanner.rescanTemplate }
  | .save => { s with checkpoints := s.scanner.save :: s.checkpoints }
  | .restore =>
    match s.checkpoints with
    | [] => s
    | c :: older => { scanner := s.scanner.restore c, checkpoints := older }

/-- One operation after another. -/
def run (s : Session) (ops : List Operation) : Session := ops.foldl step s

theorem step_restore {s : Session} {c : Checkpoint} {older : List Checkpoint}
    (h : s.checkpoints = c :: older) : s.step .restore = ⟨s.scanner.restore c, older⟩ := by
  simp only [step, h]

theorem run_append (s : Session) (ops more : List Operation) :
    s.run (ops ++ more) = (s.run ops).run more :=
  List.foldl_append

end Session

/-! ### Nesting -/

/-- How many of `n` checkpoints there are after an operation; nothing if it lacks one. -/
def Operation.depth? : Nat → Operation → Option Nat
  | n, .save => some (n + 1)
  | 0, .restore => none
  | n + 1, .restore => some n
  | n, _ => some n

/-- How many of `n` checkpoints there are after the operations; nothing if one of them lacks a
checkpoint. -/
def depth? (n : Nat) (ops : List Operation) : Option Nat := ops.foldlM Operation.depth? n

/-- No restore is without a save that it belongs to. -/
def IsNested (ops : List Operation) : Prop := (depth? 0 ops).isSome

instance (ops : List Operation) : Decidable (IsNested ops) :=
  inferInstanceAs (Decidable ((depth? 0 ops).isSome = true))

theorem depth?_append (n : Nat) (ops more : List Operation) :
    depth? n (ops ++ more) = (depth? n ops).bind fun m => depth? m more :=
  List.foldlM_append

theorem depth?_cons (n : Nat) (op : Operation) (ops : List Operation) :
    depth? n (op :: ops) = (op.depth? n).bind fun m => depth? m ops :=
  List.foldlM_cons

/-- There is a checkpoint before a restore. -/
theorem exists_depth? {ops after : List Operation} (h : IsNested (ops ++ .restore :: after)) :
    ∃ n, depth? 0 ops = some (n + 1) := by
  obtain ⟨m, h⟩ := Option.isSome_iff_exists.mp h
  rw [depth?_append] at h
  obtain ⟨n, hops, hrestore⟩ := Option.bind_eq_some_iff.mp h
  cases n with
  | zero => cases hrestore
  | succ n => exact ⟨n, hops⟩

/-- Checkpoints that are there before stay out of the way. -/
theorem Operation.depth?_add {n m : Nat} {op : Operation} (h : op.depth? n = some m) (k : Nat) :
    op.depth? (n + k) = some (m + k) := by
  cases op with
  | save =>
    obtain rfl := Option.some.inj h
    exact congrArg some (Nat.add_right_comm n k 1)
  | restore =>
    cases n with
    | zero => cases h
    | succ n =>
      obtain rfl := Option.some.inj h
      rw [Nat.add_right_comm]
      rfl
  | scan | rescanGreater | rescanSlash | rescanTemplate =>
    obtain rfl : n = m := by simpa [Operation.depth?] using h
    simp [Operation.depth?]

theorem depth?_add {n m : Nat} {ops : List Operation} (h : depth? n ops = some m) (k : Nat) :
    depth? (n + k) ops = some (m + k) := by
  induction ops generalizing n with
  | nil =>
    obtain rfl := Option.some.inj h
    rfl
  | cons op ops ih =>
    rw [depth?_cons] at h ⊢
    obtain ⟨i, hop, hops⟩ := Option.bind_eq_some_iff.mp h
    rw [Operation.depth?_add hop k]
    exact ih hops

/-- The save of the newest checkpoint: after it, saves and restores come in pairs. -/
theorem exists_matching_save {n : Nat} (ops : List Operation) (h : depth? 0 ops = some (n + 1)) :
    ∃ before inside, ops = before ++ .save :: inside ∧ depth? 0 before = some n ∧
      depth? 0 inside = some 0 := by
  obtain rfl | ⟨init, last, hops⟩ := List.eq_nil_or_concat ops
  · cases h
  rw [List.concat_eq_append] at hops
  rw [hops, depth?_append] at h
  obtain ⟨m, hinit, hlast⟩ := Option.bind_eq_some_iff.mp h
  cases last with
  | save =>
    obtain rfl : m = n := by simpa [depth?, Operation.depth?] using hlast
    exact ⟨init, [], hops, hinit, rfl⟩
  | restore =>
    -- It belongs to a save of `init`; the one that is looked for comes before that.
    obtain rfl : m = n + 1 + 1 := by cases m <;> simp_all [depth?, Operation.depth?]
    obtain ⟨before, inner, rfl, hbefore, hinner⟩ := exists_matching_save init hinit
    obtain ⟨before, inside, rfl, hbefore, hinside⟩ := exists_matching_save before hbefore
    refine ⟨before, inside ++ .save :: (inner ++ [.restore]), by simp [hops], hbefore, ?_⟩
    have hinner : depth? 1 (inner ++ [.restore]) = some 0 := by
      rw [depth?_append, depth?_add hinner 1]
      rfl
    rw [depth?_append, hinside]
    exact hinner
  | scan | rescanGreater | rescanSlash | rescanTemplate =>
    obtain rfl : m = n + 1 := by simpa [depth?, Operation.depth?] using hlast
    obtain ⟨before, inside, rfl, hbefore, hinside⟩ := exists_matching_save init hinit
    refine ⟨before, inside ++ [_], hops.trans (List.append_assoc ..), hbefore, ?_⟩
    rw [depth?_append, hinside]
    rfl
termination_by ops.length
decreasing_by
  all_goals
    rw [hops]
    simp only [List.length_append, List.length_cons]
    omega

/-! ### What stays above a checkpoint -/

/-- A session that came from `s` with the checkpoints `older`, and has `n` checkpoints more: the
errors of `s` are in front, and no checkpoint counts fewer. -/
structure Keeps (s : Scanner) (older : List Checkpoint) (n : Nat) (t : Session) : Prop where
  skipTrivia : t.scanner.skipTrivia = s.skipTrivia
  errors : s.errors.toList <+: t.scanner.errors.toList
  checkpoints : ∃ newer, t.checkpoints = newer ++ older ∧ newer.length = n ∧
    ∀ c ∈ newer, s.errors.size ≤ c.errorCount

namespace Keeps

variable {s : Scanner} {older : List Checkpoint} {n m : Nat} {t : Session}

theorem refl (s : Session) : Keeps s.scanner s.checkpoints 0 s :=
  ⟨rfl, List.prefix_refl _, [], rfl, rfl, List.forall_mem_nil _⟩

theorem logs (h : Keeps s older n t) {f : Scanner → Scanner} (hf : Scanner.Logs f) :
    Keeps s older n { t with scanner := f t.scanner } :=
  ⟨(hf.skipTrivia _).trans h.skipTrivia, h.errors.trans (hf.errors _), h.checkpoints⟩

/-- No operation goes back past `s`, unless it lacks a checkpoint. -/
theorem step {op : Operation} (h : Keeps s older n t) (hop : op.depth? n = some m) :
    Keeps s older m (t.step op) := by
  obtain ⟨newer, hcheckpoints, rfl, hcounts⟩ := h.checkpoints
  cases op with
  | scan =>
    obtain rfl := Option.some.inj hop
    exact h.logs Scanner.logs_scan
  | rescanGreater =>
    obtain rfl := Option.some.inj hop
    exact h.logs Scanner.logs_rescanGreater
  | rescanSlash =>
    obtain rfl := Option.some.inj hop
    exact h.logs Scanner.logs_rescanSlash
  | rescanTemplate =>
    obtain rfl := Option.some.inj hop
    exact h.logs Scanner.logs_rescanTemplate
  | save =>
    obtain rfl := Option.some.inj hop
    refine ⟨h.skipTrivia, h.errors, t.scanner.save :: newer, congrArg (_ :: ·) hcheckpoints, rfl,
      fun c hc => ?_⟩
    rcases List.mem_cons.mp hc with rfl | hc
    · exact h.errors.length_le
    · exact hcounts c hc
  | restore =>
    cases newer with
    | nil => cases hop
    | cons c newer =>
      obtain rfl := Option.some.inj hop
      have hcount := hcounts c List.mem_cons_self
      rw [Session.step_restore hcheckpoints]
      refine ⟨h.skipTrivia, ?_, newer, rfl, rfl, fun c hc => hcounts c (List.mem_cons_of_mem _ hc)⟩
      simpa [Scanner.restore, List.prefix_take_iff] using ⟨h.errors, hcount⟩

theorem run {ops : List Operation} (h : Keeps s older n t) (hops : depth? n ops = some m) :
    Keeps s older m (t.run ops) := by
  induction ops generalizing n t with
  | nil =>
    obtain rfl := Option.some.inj hops
    exact h
  | cons op ops ih =>
    rw [depth?_cons] at hops
    obtain ⟨i, hop, hops⟩ := Option.bind_eq_some_iff.mp hops
    exact ih (h.step hop) hops

/-- The checkpoint of `s` is as good as a copy of it. -/
theorem restore_save (h : Keeps s older n t) : t.scanner.restore s.save = s := by
  have herrors : t.scanner.errors.take s.errors.size = s.errors := by
    have htake := List.prefix_iff_eq_take.mp h.errors
    exact Array.toList_inj.mp (.trans (by simp) htake.symm)
  simp only [Scanner.restore, Scanner.save, herrors, h.skipTrivia]

end Keeps

/-- What stands between a save and the restore that belongs to it is undone by the restore. -/
theorem Session.run_save_restore {inside : List Operation} (h : depth? 0 inside = some 0)
    (s : Session) : s.run (.save :: (inside ++ [.restore])) = s := by
  have hinside : Keeps s.scanner (s.scanner.save :: s.checkpoints) 0 ((s.step .save).run inside) :=
    (Keeps.refl (s.step .save)).run h
  obtain ⟨newer, hcheckpoints, hlength, -⟩ := hinside.checkpoints
  obtain rfl := List.length_eq_zero_iff.mp hlength
  calc s.run (.save :: (inside ++ [Operation.restore]))
      = ((s.step .save).run inside).step .restore := run_append (s.step .save) inside [.restore]
    _ = ⟨_, s.checkpoints⟩ := step_restore hcheckpoints
    _ = s := by rw [hinside.restore_save]

/-- Operations on a scanner of any text, the checkpoints on a stack: each restore that has a
checkpoint brings the scanner and the older checkpoints back to what they were at the save that it
belongs to, and whatever comes after it does what it would have done there. -/
theorem Session.restore_brings_back (text : List Char) (skipTrivia : Bool)
    (ops after : List Operation) (h : IsNested (ops ++ .restore :: after)) :
    ∃ before inside, ops = before ++ .save :: inside ∧ depth? 0 inside = some 0 ∧
      (ofText text skipTrivia).run (ops ++ [.restore]) = (ofText text skipTrivia).run before ∧
      ∀ more, (ofText text skipTrivia).run (ops ++ .restore :: more) =
        (ofText text skipTrivia).run (before ++ more) := by
  obtain ⟨n, hdepth⟩ := exists_depth? h
  obtain ⟨before, inside, rfl, -, hinside⟩ := exists_matching_save ops hdepth
  have hmore (more : List Operation) :
      (ofText text skipTrivia).run ((before ++ .save :: inside) ++ .restore :: more) =
        (ofText text skipTrivia).run (before ++ more) := by
    have hops : (before ++ .save :: inside) ++ .restore :: more =
        before ++ (.save :: (inside ++ [.restore]) ++ more) := by simp
    rw [hops, run_append, run_append, run_save_restore hinside, run_append]
  refine ⟨before, inside, rfl, hinside, ?_, hmore⟩
  simpa using hmore []

/-- A look-ahead inside a look-ahead, in a text with an error that both come to. -/
theorem Session.restore_brings_back_twice :
    IsNested ([.scan, .save, .scan, .save, .rescanGreater, .scan, .restore, .scan, .scan] ++
        .restore :: [.scan]) ∧
      ∃ before inside, [.scan, .save, .scan, .save, .rescanGreater, .scan, .restore, .scan, .scan] =
          before ++ .save :: inside ∧ depth? 0 inside = some 0 ∧
        (ofText "a >>= 'b".toList true).run
            ([.scan, .save, .scan, .save, .rescanGreater, .scan, .restore, .scan, .scan] ++
              [.restore]) = (ofText "a >>= 'b".toList true).run before ∧
        ∀ more, (ofText "a >>= 'b".toList true).run
            ([.scan, .save, .scan, .save, .rescanGreater, .scan, .restore, .scan, .scan] ++
              .restore :: more) = (ofText "a >>= 'b".toList true).run (before ++ more) := by
  have hnested : IsNested ([.scan, .save, .scan, .save, .rescanGreater, .scan, .restore, .scan,
      .scan] ++ .restore :: [.scan]) := by decide
  have hrestored := restore_brings_back "a >>= 'b".toList true
    [.scan, .save, .scan, .save, .rescanGreater, .scan, .restore, .scan, .scan] [.scan] hnested
  exact ⟨hnested, hrestored⟩

end Unchain.Token
